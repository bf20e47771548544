import Chopstx.Property.Queues
import Chopstx.Property.Wake
import Chopstx.Property.Mutex
import Chopstx.Property.Exclusion
import Chopstx.Property.Waiters
import Chopstx.Property.Mask
import Chopstx.Property.Cancel
import Chopstx.Property.DataStage
import Chopstx.Property.LinuxSched
import Chopstx.Property.ControlTransfer
import Chopstx.Property.RingBuffer
import Chopstx.Property.CorrectTransfer
import Chopstx.Property.EndpointZero
import Chopstx.Property.DataToggle
import Chopstx.Property.EndpointHalt
import Chopstx.Property.UrbOrder
import Chopstx.Property.Transmit
import Chopstx.Property.Eventflag
import Chopstx.Property.Deadlines
import Chopstx.Property.Snooze
import Chopstx.Property.TickRange
import Chopstx.Property.FlashWrite
import Chopstx.Library.Arrivals
import Chopstx.Section.Edit
import Chopstx.Property.FlashImage
import Chopstx.Property.StatusInfo
import Chopstx.Property.UrbReply
import Chopstx.Property.EndpointIndex
import Chopstx.Property.StalledEndpoint
import Chopstx.Property.RejectedRequest
import Chopstx.Property.Cleanup
import Chopstx.Library.Donation
import Chopstx.Section.Donors
import Chopstx.Run.Donors
import Chopstx.Property.Boost
import Chopstx.Library.Patches
import Chopstx.Usb.PacketMemory
import Chopstx.Property.PacketMemory
import Chopstx.Property.DataOut
import Chopstx.Property.UsartConfig
import Chopstx.Library.OnePlace
import Chopstx.Usb.Mailbox
import Chopstx.Property.Mailbox
import Chopstx.Usb.UsbipDevice
import Chopstx.Property.ExportedDevice
import Chopstx.Property.UsecWait
import Chopstx.Property.Join
import Chopstx.Run.Calls
import Chopstx.Section.Events
import Chopstx.Property.PollTimeout
import Chopstx.Run.Proxies
import Chopstx.Library.EventBoard
import Chopstx.Run.Watch
import Chopstx.Run.Board
import Chopstx.Run.Highest
import Chopstx.Property.StrictPriority
import Chopstx.Property.PollEvents
import Chopstx.Usb.Mkl27zCtrl
import Chopstx.Property.Lockstep
import Chopstx.Property.ControlToggle
import Chopstx.Property.OutStage
import Chopstx.Property.UrbPayload
import Chopstx.Property.InStage
