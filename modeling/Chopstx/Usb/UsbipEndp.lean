import Chopstx.Usb.Usbip
import Chopstx.Usb.StdReq

/-!
# The data endpoints of the USBIP emulation, as the standard requests see them

The state of each endpoint is a field of its record in `usbc_ep_in` or `usbc_ep_out`.

* `EpStates.get`, `EpStates.set` - the state of an endpoint.
* `stdPort` - the endpoints for the standard requests; `status_info` is a static variable, to which
  the request for an endpoint adds a bit.
* `stdGetStatus`, `stdClearFeature`, `stdSetFeature` - the handlers over it.

The two other drivers have their `stdPort` in `Chopstx.Usb.Stm32f103Ctrl` and
`Chopstx.Usb.Mkl27zEndp`.
-/

namespace Chopstx.Usb.Usbip

/-- The fields `state` of the records in `usbc_ep_in` and `usbc_ep_out`. -/
structure EpStates where
  epIn : Nat → EpState
  epOut : Nat → EpState

namespace EpStates

variable (e : EpStates) (isIn : Bool) (n : Nat)

/-- The state of an endpoint. -/
def get : EpState := if isIn then e.epIn n else e.epOut n

/-- The endpoint with another state. -/
def set (st : EpState) : EpStates :=
  if isIn then { e with epIn := Function.update e.epIn n st }
  else { e with epOut := Function.update e.epOut n st }

@[simp] theorem get_set_self (st : EpState) : (e.set isIn n st).get isIn n = st := by
  cases isIn <;> simp [get, set]

end EpStates

/-- The endpoints for the standard requests; `status_info` is a static variable, to which the
request for an endpoint adds a bit. -/
def stdPort : StdPort EpStates where
  status₀ s := s
  disabled isIn n e := e.get isIn n = .disabled
  halted isIn n e := e.get isIn n = .stall
  epStatus halted s := if halted then s ||| 1 else s
  clearHalt isIn n e := e.set isIn n .nak
  setHalt isIn n e := e.set isIn n .stall

/-- `std_get_status` -/
def stdGetStatus (d : StdDev EpStates) (arg : DeviceReq) : Outcome × StdDev EpStates :=
  Usb.stdGetStatus stdPort d arg

/-- `std_clear_feature` -/
def stdClearFeature (d : StdDev EpStates) (arg : DeviceReq) : Outcome × StdDev EpStates :=
  Usb.stdClearFeature stdPort d arg

/-- `std_set_feature` -/
def stdSetFeature (d : StdDev EpStates) (arg : DeviceReq) : Outcome × StdDev EpStates :=
  Usb.stdSetFeature stdPort d arg

end Chopstx.Usb.Usbip
