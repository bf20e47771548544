import Chopstx.Usb.HostController

/-!
# What the USBIP server says of the device

For a list of the devices, and for an attach, the server asks the device for its descriptor
(`issue_get_desc`), fills in the record `usbip_usb_device`, and sends it as it stands in memory.
The bytes of the descriptor are read through a pointer to `char`, which is signed, and the
processor is little endian.

* `UsbipUsbDevice`, `UsbipUsbDevice.bytes` - the record, and its bytes in memory.
* `charToInt`, `descWord`, `htons` - how two bytes of the descriptor become a word of the record.
* `refreshUsbDevice` - the record after the descriptor has been read.
* `listDevices`, `attachDevice` - what is sent to the client.
-/

namespace Chopstx.Usb.Usbip

/-! ## The record -/

/-- The bytes of a `uint16_t` and of a `uint32_t` in memory -/
def le16 (x : BitVec 16) : List Byte := [x.setWidth 8, (x >>> 8).setWidth 8]

def le32 (x : BitVec 32) : List Byte :=
  [x.setWidth 8, (x >>> 8).setWidth 8, (x >>> 16).setWidth 8, (x >>> 24).setWidth 8]

/-- `htons` and `htonl` -/
def htons (x : BitVec 16) : BitVec 16 := (x <<< 8) ||| (x >>> 8)

def htonl (x : BitVec 32) : BitVec 32 :=
  (x <<< 24) ||| ((x &&& 0xff00) <<< 8) ||| ((x >>> 8) &&& 0xff00) ||| (x >>> 24)

/-- The characters of a string, and zeros behind them up to `n` bytes -/
def padded (cs : List Char) (n : Nat) : List Byte :=
  let bs := cs.map fun c => BitVec.ofNat 8 c.toNat
  bs ++ List.replicate (n - bs.length) 0

/-- `struct usbip_usb_device` -/
structure UsbipUsbDevice where
  path : List Byte
  busid : List Byte
  busnum : BitVec 32
  devnum : BitVec 32
  speed : BitVec 32
  idVendor : BitVec 16
  idProduct : BitVec 16
  bcdDevice : BitVec 16
  bDeviceClass : Byte
  bDeviceSubClass : Byte
  bDeviceProtocol : Byte
  bConfigurationValue : Byte
  bNumConfigurations : Byte
  bNumInterfaces : Byte
  deriving DecidableEq, Repr

/-- The record in memory; it is packed. -/
def UsbipUsbDevice.bytes (r : UsbipUsbDevice) : List Byte :=
  r.path ++ r.busid ++ le32 r.busnum ++ le32 r.devnum ++ le32 r.speed ++
    le16 r.idVendor ++ le16 r.idProduct ++ le16 r.bcdDevice ++
    [r.bDeviceClass, r.bDeviceSubClass, r.bDeviceProtocol, r.bConfigurationValue,
      r.bNumConfigurations, r.bNumInterfaces]

/-- `MY_BUS_ID` -/
def myBusId : List Byte := padded ['1', '-', '1'] 32

/-- The path of the device -/
def devicePath : List Char :=
  ['/', 's', 'y', 's', '/', 'd', 'e', 'v', 'i', 'c', 'e', 's', '/', 'p', 'c', 'i', '0', '0', '0',
    '0', ':', '0', '0', '/', '0', '0', '0', '0', ':', '0', '0', ':', '0', '1', '.', '1', '/', 'u',
    's', 'b', '1', '/', '1', '-', '1']

/-! ## The request for the descriptor -/

/-- The URB of `issue_get_desc` -/
def issueGetDesc : Urb where
  dir := .dirIn
  len := 64
  setup := [0x80, 6, 0, 1, 0, 0, 64, 0]
  setup_length := rfl
  dir_setup := by decide
  len_setup := by decide

/-- A `char` as an `int` -/
def charToInt (c : Byte) : BitVec 32 := c.signExtend 32

/-- `htons (((hi << 8)|lo))` -/
def descWord (hi lo : Byte) : BitVec 16 :=
  htons (((charToInt hi <<< 8) ||| charToInt lo).setWidth 16)

/-- `refresh_usb_device`: the record after it, when `data` is `urb->data` -/
def refreshUsbDevice (data : Memory Unit Byte) : UsbipUsbDevice :=
  let desc := data ()
  { path := padded devicePath 256
    busid := myBusId
    busnum := 0
    devnum := 0
    speed := htonl 2
    idVendor := descWord (desc 9) (desc 8)
    idProduct := descWord (desc 11) (desc 10)
    bcdDevice := descWord (desc 13) (desc 12)
    bDeviceClass := (charToInt (desc 4)).setWidth 8
    bDeviceSubClass := (charToInt (desc 5)).setWidth 8
    bDeviceProtocol := (charToInt (desc 6)).setWidth 8
    bConfigurationValue := 0
    bNumConfigurations := (charToInt (desc 17)).setWidth 8
    bNumInterfaces := 0 }

/-- `list_devices`: what is sent -/
def listDevices (data : Memory Unit Byte) : List Byte := (refreshUsbDevice data).bytes

/-- `attach_device`: what is sent, if the device is that of the server -/
def attachDevice (busid : List Byte) (data : Memory Unit Byte) : Option (List Byte) :=
  if busid ≠ myBusId then none else some (refreshUsbDevice data).bytes

end Chopstx.Usb.Usbip
