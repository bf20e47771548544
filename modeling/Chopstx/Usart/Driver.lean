import Chopstx.Usart.RingBuffer

/-!
# The thread of the USART driver

`usart_main` serves the two devices.  Each device has its registers, the two ring buffers
(from the application to the hardware, and back), and the flags of `usart_main`.  Other
threads call `usart_config`, which writes the registers, and `usart_write` and `usart_read`,
which work on the ring buffers; the hardware sets the flags of SR.

Each access to a register is a step: `CR1 &= …` and `CR1 |= …` are two of them.

* `Dev`, `Reg`, `RegOp`, `DevState` - the devices with their registers, and assignments to these.
* `usartConfig`, `Cfg`, `cfgStep` - the assignments of `usart_config`, and a thread that makes them.
* `Main`, `Driver.mainStep`, `Driver.pollReturns` - `usart_main`, with `Driver.handleRx` and
  `Dev.afterTx` for `handle_intr` and `handle_tx_ready`.
* `Driver.step` - the hardware, `usart_main`, and the other threads.
* `Action.writes`, `Action.reads` - the steps of `usart_write` and `usart_read`.
-/

namespace Chopstx.Usart

/-! ## Registers -/

/-- The two devices, USART2 and USART3. -/
inductive Dev where
  | usart2
  | usart3
  deriving DecidableEq, Repr

/-- The registers that are plain memory. -/
inductive Reg where
  | cr1
  | cr2
  | cr3
  | brr
  | gtpr
  deriving DecidableEq, Repr

/-- Bits of SR -/
def srTxe : BitVec 32 := 0x80
def srRxne : BitVec 32 := 0x20
def srOre : BitVec 32 := 0x08
def srNe : BitVec 32 := 0x04
def srFe : BitVec 32 := 0x02
def srPe : BitVec 32 := 0x01

/-- Bits of CR1 -/
def cr1Ue : BitVec 32 := 0x2000
def cr1M : BitVec 32 := 0x1000
def cr1Pce : BitVec 32 := 0x0400
def cr1Ps : BitVec 32 := 0x0200
def cr1Peie : BitVec 32 := 0x0100
def cr1Txeie : BitVec 32 := 0x0080
def cr1Rxneie : BitVec 32 := 0x0020
def cr1Te : BitVec 32 := 0x0008
def cr1Re : BitVec 32 := 0x0004

/-- A flag of a register is set. -/
def has (mask r : BitVec 32) : Bool := r &&& mask ≠ 0

/-! ## `usart_config` -/

/-- An assignment to a register: `=`, `&=` or `|=`. -/
inductive RegOp where
  | set (r : Reg) (v : BitVec 32)
  | and (r : Reg) (m : BitVec 32)
  | or (r : Reg) (m : BitVec 32)
  deriving DecidableEq, Repr

/-- `brr_table` -/
def brrTable : List (BitVec 32 × BitVec 32) :=
  [(16, 3750 <<< 4), (17, 1875 <<< 4), (19, 937 <<< 4 ||| 8), (21, 234 <<< 4 ||| 6),
    (22, 117 <<< 4 ||| 3), (24, 39 <<< 4 ||| 1), (25, 19 <<< 4 ||| 8), (26, 9 <<< 4 ||| 12),
    (27, 4 <<< 4 ||| 14), (28, 2 <<< 4 ||| 7), (63, 232 <<< 4 ||| 8)]

/-- The fields of `config_bits` -/
def maskBaud : BitVec 32 := 0x3f
def maskCs : BitVec 32 := 0x7 <<< 6
def cs7 : BitVec 32 := 2 <<< 6
def cs8 : BitVec 32 := 3 <<< 6
def maskStop : BitVec 32 := 0x3 <<< 9
def stop0b5 : BitVec 32 := 0 <<< 9
def stop1b : BitVec 32 := 1 <<< 9
def stop1b5 : BitVec 32 := 2 <<< 9
def parenb : BitVec 32 := 1 <<< 11
def parodd : BitVec 32 := 2 <<< 11
def maskFlow : BitVec 32 := 0x1 <<< 14
def modeSmartcard : BitVec 32 := 1 <<< 30
def modeIrda : BitVec 32 := 2 <<< 30
def modeIrdaLp : BitVec 32 := 3 <<< 30
def maskMode : BitVec 32 := 0x3 <<< 30

/-- The bit M for the size of a character, or `none` for a size that there is not. -/
def configM (bits : BitVec 32) : Option (BitVec 32) :=
  if (bits &&& maskCs = cs7 ∧ has parenb bits) ∨ (bits &&& maskCs = cs8 ∧ has parenb bits = false)
  then some 0
  else if bits &&& maskCs = cs8 then some cr1M
  else none

/-- `cr1_config`, when `m` is the bit M -/
def cr1Config (bits m : BitVec 32) : BitVec 32 :=
  cr1Ue ||| cr1Rxneie ||| cr1Te ||| cr1Re ||| m |||
    (if has parenb bits then cr1Pce ||| cr1Peie else 0) ||| if has parodd bits then cr1Ps else 0

/-- CR2 for the number of stop bits -/
def configCr2 (bits : BitVec 32) : BitVec 32 :=
  if bits &&& maskStop = stop0b5 then 0x1 <<< 12
  else if bits &&& maskStop = stop1b then 0x0 <<< 12
  else if bits &&& maskStop = stop1b5 then 0x3 <<< 12
  else 0x2 <<< 12

/-- The assignments for the mode, behind that to CR1 -/
def configMode (bits : BitVec 32) : List RegOp :=
  if bits &&& maskMode = modeSmartcard then
    [.set .gtpr (16 <<< 8 ||| 5), .or .cr3 (1 <<< 5 ||| 1 <<< 4)]
  else if bits &&& maskMode = modeIrda then [.or .cr3 (1 <<< 1)]
  else if bits &&& maskMode = modeIrdaLp then [.or .cr3 (1 <<< 2 ||| 1 <<< 1)]
  else []

/-- `usart_config` for a device that there is: the assignments to its registers, in order, and
the result -/
def usartConfig (bits : BitVec 32) : List RegOp × Int :=
  match configM bits with
  | none => ([.and .cr1 (~~~cr1Ue)], -1)
  | some m =>
      match brrTable.find? fun b => b.1 = bits &&& maskBaud with
      | none => ([.and .cr1 (~~~cr1Ue), .set .cr2 (configCr2 bits)], -1)
      | some b =>
          ([.and .cr1 (~~~cr1Ue), .set .cr2 (configCr2 bits), .set .brr b.2,
            .set .cr3 (if has maskFlow bits then 1 <<< 9 ||| 1 <<< 8 else 0),
            .set .cr1 (cr1Config bits m)] ++ configMode bits, 0)

/-! ## The state -/

/-- The counters of `struct usart_stat` -/
structure Stat where
  tx : BitVec 32
  rx : BitVec 32
  rxBreak : BitVec 32
  errNotifyOverflow : BitVec 32
  errRxOverflow : BitVec 32
  errRxOverrun : BitVec 32
  errRxNoise : BitVec 32
  errRxParity : BitVec 32
  deriving DecidableEq, Repr

/-- A device with what the driver keeps for it.  `dr` are the bytes written to DR, each with the
flag TXE at that time. -/
structure DevState where
  sr : BitVec 32
  /-- What is read from DR. -/
  rdr : BitVec 32
  reg : Reg → BitVec 32
  dr : List (UInt8 × Bool)
  stat : Stat
  txReady : Bool
  intrReady : Bool
  appReady : Bool
  a2h : State
  h2a : State

/-- Where `usart_main` is; `r` is the value of SR that `handle_intr` has read, `bits` is
`notify_bits`, and `v` a value of CR1. -/
inductive Main where
  /-- In `chopstx_poll`. -/
  | poll
  /-- Before `if (usart2_intr.ready)`, or the one for the other device. -/
  | intr (d : Dev)
  /-- `handle_intr`: `CR1 &= ~USART_CR1_TXEIE`. -/
  | clearRead (d : Dev) (r : BitVec 32)
  | clearWrite (d : Dev) (r v : BitVec 32)
  /-- `if ((r & USART_SR_RXNE))`. -/
  | rx (d : Dev) (r : BitVec 32)
  /-- In `rb_ll_put`. -/
  | put (d : Dev) (r bits : BitVec 32)
  /-- `if (notify_bits)`, to the end. -/
  | notify (d : Dev) (r bits : BitVec 32)
  /-- Before `if (usart2_tx_ready && usart2_app_write_event.ready)`, or the other one. -/
  | tx (d : Dev)
  /-- `handle_tx_ready`: in `rb_ll_get`. -/
  | get (d : Dev)
  /-- `DR = (c & 0xff)`. -/
  | dr (d : Dev) (c : UInt8)
  /-- `r = SR`. -/
  | sr (d : Dev)
  /-- `CR1 |= USART_CR1_TXEIE`. -/
  | ieRead (d : Dev)
  | ieWrite (d : Dev) (v : BitVec 32)
  deriving DecidableEq, Repr

/-- A thread in `usart_config`: the device, the assignments that are left, and the value read
for the first of them. -/
structure Cfg where
  dev : Dev
  ops : List RegOp
  read : Option (BitVec 32)
  deriving DecidableEq, Repr

/-- The devices and the threads. -/
structure Driver where
  dev : Dev → DevState
  main : Main
  cfg : Nat → Option Cfg

/-- `usart_main` is this thread in the ring buffers. -/
def mainThread : Nat := 0

namespace Driver

variable (s : Driver)

/-- A device is changed. -/
def upd (d : Dev) (f : DevState → DevState) : Driver :=
  { s with dev := Function.update s.dev d (f (s.dev d)) }

/-- `usart_main` is at another place. -/
def goto (m : Main) : Driver := { s with main := m }

/-- A register of a device is written. -/
def setReg (d : Dev) (r : Reg) (v : BitVec 32) : Driver :=
  s.upd d fun x => { x with reg := Function.update x.reg r v }

/-- A counter of a device is incremented. -/
def count (d : Dev) (f : Stat → Stat) : Driver := s.upd d fun x => { x with stat := f x.stat }

end Driver

/-! ## `usart_main` -/

/-- Behind the part for the interrupt of a device, and behind the part for its transmission. -/
def Dev.afterIntr : Dev → Main
  | .usart2 => .intr .usart3
  | .usart3 => .tx .usart2

def Dev.afterTx : Dev → Main
  | .usart2 => .tx .usart3
  | .usart3 => .poll

/-- The flags that reading DR clears. -/
def rxFlags : BitVec 32 := srRxne ||| srOre ||| srNe ||| srFe ||| srPe

/-- The bits of `notify_bits` -/
def bitmapBreak : BitVec 32 := 1 <<< 2
def bitmapParity : BitVec 32 := 1 <<< 5
def bitmapOverrun : BitVec 32 := 1 <<< 6

/-- What the last call of `usart_main` returned. -/
def lastAnswer (b : State) : Option Int :=
  match b.log.getLast? with
  | some (.ret _ (.r c)) => some c
  | _ => none

namespace Driver

variable (s : Driver)

/-- `data = USARTx->DR` -/
def readDr (d : Dev) : Driver := s.upd d fun x => { x with sr := x.sr &&& ~~~rxFlags }

/-- A step in the ring buffer from the application to the hardware, or in the other one -/
def stepA2h (d : Dev) (a : Action) : Except Fault Driver :=
  (step (s.dev d).a2h a).map fun b => s.upd d fun x => { x with a2h := b }

def stepH2a (d : Dev) (a : Action) : Except Fault Driver :=
  (step (s.dev d).h2a a).map fun b => s.upd d fun x => { x with h2a := b }

/-- `handle_intr` where the flag RXNE of `r` is looked at -/
def handleRx (d : Dev) (r : BitVec 32) : Except Fault Driver :=
  if has srRxne r then
    let s₁ := s.readDr d
    if has srNe r then
      .ok ((s₁.count d fun x => { x with errRxNoise := x.errRxNoise + 1 }).goto (.notify d r 0))
    else if has srFe r then
      .ok ((s₁.count d fun x => { x with rxBreak := x.rxBreak + 1 }).goto
        (.notify d r bitmapBreak))
    else if has srPe r then
      .ok ((s₁.count d fun x => { x with errRxParity := x.errRxParity + 1 }).goto
        (.notify d r bitmapParity))
    else
      let v := UInt8.ofNat (s.dev d).rdr.toNat
      if has srOre r then
        ((s₁.count d fun x => { x with errRxOverrun := x.errRxOverrun + 1 }).goto
          (.put d r bitmapOverrun)).stepH2a d (.call mainThread (.rbLlPut v))
      else (s₁.goto (.put d r 0)).stepH2a d (.call mainThread (.rbLlPut v))
  else if has srOre r then
    .ok (((s.readDr d).count d fun x => { x with errRxOverrun := x.errRxOverrun + 1 }).goto
      (.notify d r bitmapOverrun))
  else .ok (s.goto (.notify d r 0))

/-- One step of `usart_main` outside of `chopstx_poll`; `cb` is what the callback returns. -/
def mainStep (cb : Bool) : Except Fault Driver :=
  match s.main with
  | .poll => .error .notNow
  | .intr d =>
      if (s.dev d).intrReady then
        let r := (s.dev d).sr
        .ok (s.goto (if has srTxe r then .clearRead d r else .rx d r))
      else .ok (s.goto d.afterIntr)
  | .clearRead d r => .ok (s.goto (.clearWrite d r ((s.dev d).reg .cr1)))
  | .clearWrite d r v => .ok ((s.setReg d .cr1 (v &&& ~~~cr1Txeie)).goto (.rx d r))
  | .rx d r => s.handleRx d r
  | .put d r bits => do
      let s ← s.stepH2a d (.run mainThread)
      if (s.dev d).h2a.pc mainThread = .idle then
        let s := s.goto (.notify d r bits)
        .ok (if lastAnswer (s.dev d).h2a = some 0 then
            s.count d fun x => { x with rx := x.rx + 1 }
          else s.count d fun x => { x with errRxOverflow := x.errRxOverflow + 1 })
      else .ok s
  | .notify d r bits =>
      let s :=
        if bits ≠ 0 ∧ cb then
          s.count d fun x => { x with errNotifyOverflow := x.errNotifyOverflow + 1 }
        else s
      .ok ((s.upd d fun x => { x with txReady := has srTxe r }).goto d.afterIntr)
  | .tx d =>
      if (s.dev d).txReady ∧ (s.dev d).appReady then
        (s.goto (.get d)).stepA2h d (.call mainThread .rbLlGet)
      else .ok (s.goto d.afterTx)
  | .get d => do
      let s ← s.stepA2h d (.run mainThread)
      if (s.dev d).a2h.pc mainThread = .idle then
        match lastAnswer (s.dev d).a2h with
        | some (.ofNat c) => .ok (s.goto (.dr d (UInt8.ofNat c)))
        | _ => .ok (s.goto d.afterTx)
      else .ok s
  | .dr d c =>
      .ok ((s.upd d fun x => { x with
        dr := x.dr ++ [(c, has srTxe x.sr)]
        sr := x.sr &&& ~~~srTxe
        stat := { x.stat with tx := x.stat.tx + 1 } }).goto (.sr d))
  | .sr d => .ok (s.goto (if has srTxe (s.dev d).sr then d.afterTx else .ieRead d))
  | .ieRead d => .ok (s.goto (.ieWrite d ((s.dev d).reg .cr1)))
  | .ieWrite d v =>
      .ok (((s.setReg d .cr1 (v ||| cr1Txeie)).upd d fun x => { x with txReady := false }).goto
        d.afterTx)

/-- `chopstx_poll` returns with these events ready; the event of the application is polled for
only where `tx_ready` is set. -/
def pollReturns (intr app : Dev → Bool) : Except Fault Driver :=
  if s.main = .poll then
    .ok { s with
      main := .intr .usart2
      dev := fun d => { s.dev d with
        intrReady := intr d
        appReady := (s.dev d).txReady && app d } }
  else .error .notNow

/-! ## The other threads and the hardware -/

/-- One step of a thread in `usart_config`. -/
def cfgStep (t : Nat) : Except Fault Driver :=
  match s.cfg t with
  | none => .error .notNow
  | some c =>
      let next (c : Option Cfg) (s : Driver) : Driver :=
        { s with cfg := Function.update s.cfg t c }
      match c.ops, c.read with
      | [], _ => .ok (next none s)
      | .set r v :: ops, _ => .ok (next (some ⟨c.dev, ops, none⟩) (s.setReg c.dev r v))
      | .and r _ :: _, none | .or r _ :: _, none =>
          .ok (next (some { c with read := some ((s.dev c.dev).reg r) }) s)
      | .and r m :: ops, some v => .ok (next (some ⟨c.dev, ops, none⟩) (s.setReg c.dev r (v &&& m)))
      | .or r m :: ops, some v => .ok (next (some ⟨c.dev, ops, none⟩) (s.setReg c.dev r (v ||| m)))

end Driver

/-- A step: the hardware has put the byte of DR away, or something is received and sets flags;
a thread begins `usart_config` or goes on in it; a thread makes a step in `usart_write` or
`usart_read`; `chopstx_poll` returns, and `usart_main` makes a step.  An interrupt may come at
any time, since other flags raise it as well. -/
inductive Step where
  | txe (d : Dev)
  | receive (d : Dev) (flags rdr : BitVec 32)
  | config (t : Nat) (d : Dev) (bits : BitVec 32)
  | cfg (t : Nat)
  | write (d : Dev) (a : Action)
  | read (d : Dev) (a : Action)
  | poll (intr app : Dev → Bool)
  | main (cb : Bool)

/-- A call of `usart_write`, and one of `usart_read`, by another thread than `usart_main`, or a
step in it. -/
def Action.writes : Action → Bool
  | .call t (.rbWrite _) => t ≠ mainThread
  | .call t .rbLlFlush => t ≠ mainThread
  | .call _ _ => false
  | .run t => t ≠ mainThread

def Action.reads : Action → Bool
  | .call t (.rbRead _) => t ≠ mainThread
  | .call t .rbLlFlush => t ≠ mainThread
  | .call _ _ => false
  | .run t => t ≠ mainThread

/-- One step. -/
def Driver.step (s : Driver) : Step → Except Fault Driver
  | .txe d => .ok (s.upd d fun x => { x with sr := x.sr ||| srTxe })
  | .receive d flags rdr =>
      .ok (s.upd d fun x => { x with sr := x.sr ||| (flags &&& ~~~srTxe), rdr := rdr })
  | .config t d bits =>
      if s.cfg t = none then
        .ok { s with cfg := Function.update s.cfg t (some ⟨d, (usartConfig bits).1, none⟩) }
      else .error .notNow
  | .cfg t => s.cfgStep t
  | .write d a => if a.writes then s.stepA2h d a else .error .notNow
  | .read d a => if a.reads then s.stepH2a d a else .error .notNow
  | .poll intr app => s.pollReturns intr app
  | .main cb => s.mainStep cb

/-- A device just reset, with its ring buffers initialised. -/
def DevState.start : DevState where
  sr := 0xc0
  rdr := 0
  reg := fun _ => 0
  dr := []
  stat := ⟨0, 0, 0, 0, 0, 0, 0, 0⟩
  txReady := true
  intrReady := false
  appReady := false
  a2h := Usart.start (List.replicate 256 0) 256
  h2a := Usart.start (List.replicate 512 0) 512

/-- The driver when `usart_main` comes to its loop. -/
def Driver.start : Driver where
  dev := fun _ => .start
  main := .poll
  cfg := fun _ => none

end Chopstx.Usart
