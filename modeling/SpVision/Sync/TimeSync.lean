import SpVision.Library.Ring
import SpVision.Driver.Fields

set_option autoImplicit false

/-!
# Time sync on both sides

`TimeSync` of the driver and `time_sync_channel` of the device, and the step relation
that both are instances of. The readings of the clock are inputs.
-/
namespace SpVision

def tsSidReq : UInt16 := 0x1001
def tsSidResp : UInt16 := 0x1002

structure HistItem where
  seq : UInt16 := 0
  t0 : UInt64 := 0
  deriving DecidableEq, Repr

instance neZeroHist : NeZero 32 := ⟨by decide⟩

/-- The fields that the two sides share; `periodMs` is not 0. -/
structure TimeSync where
  periodMs : UInt32 := 1000
  initiator : Bool := false
  maxRttUs : UInt32 := 0
  lastReqUs : UInt64 := 0
  seq : UInt16 := 0
  hist : SlotRing HistItem 32 := .init 32 {}
  rttUsLast : UInt32 := 0
  offsetUs : Int64 := 0
  mappingValid : Bool := false
  mappingVersion : UInt32 := 0
  lastDeviceTimeUs : UInt64 := 0
  lastHostTimeUs : UInt64 := 0

/-! ### Messages -/

def tsReq (seq : UInt16) (t0 : UInt64) : List UInt8 :=
  writeU16Le tsSidReq ++ (writeU16Le seq ++ writeU64Le t0)

def tsResp (seq : UInt16) (t1 t2 : UInt64) : List UInt8 :=
  writeU16Le tsSidResp ++ (writeU16Le seq ++ (writeU64Le t1 ++ writeU64Le t2))

/-- The fields of a RESP. -/
structure TsResp where
  seq : UInt16
  t1 : UInt64
  t2 : UInt64
  deriving DecidableEq, Repr

def readTsResp (pl : List UInt8) : TsResp :=
  { seq := readU16Le (pl.drop 2), t1 := readU64Le (pl.drop 4), t2 := readU64Le (pl.drop 12) }

/-- A payload that is handled as a RESP, with its fields. -/
def tsResp? (pl : List UInt8) (len : ℕ) : Option TsResp :=
  if len < 2 then none
  else if readU16Le pl ≠ tsSidResp then none
  else if len < 2 + 2 + 8 + 8 then none
  else some (readTsResp pl)

theorem tsResp?_tsResp (seq : UInt16) (t1 t2 : UInt64) : tsResp? (tsResp seq t1 t2) 20 = some ⟨seq, t1, t2⟩ := by
  simp [tsResp?, tsResp, readTsResp]

/-! ### The estimate -/

def tsRtt (t0 t1 t2 t3 : UInt64) : UInt64 := if t2 ≥ t1 then t3 - t0 - (t2 - t1) else t3 - t0

def tsOffset (t0 t1 t2 t3 : UInt64) : Int64 := ((t1 - t0).toInt64 + (t2 - t3).toInt64) / 2

/-- The filter of `offset_us`. -/
def tsFilter (offsetUs offset : Int64) : Int64 := (offsetUs * 9 + offset) / 10

/-! ### The host -/

namespace TimeSync

/-- A new object with its settings made. -/
def init (periodMs : UInt32) (initiator : Bool) (maxRttUs : UInt32) : TimeSync :=
  { periodMs := if periodMs ≠ 0 then periodMs else 1000, initiator := initiator, maxRttUs := maxRttUs }

def setPeriodMs (ts : TimeSync) (v : UInt32) : TimeSync := { ts with periodMs := if v ≠ 0 then v else 1000 }
def setInitiator (ts : TimeSync) (v : Bool) : TimeSync := { ts with initiator := v }
def setMaxRttUs (ts : TimeSync) (v : UInt32) : TimeSync := { ts with maxRttUs := v }

/-- `send_req_`, with its reading of the clock; the request goes to `send_`, whose result is ignored. -/
def sendReq (ts : TimeSync) (t0 : UInt64) : TimeSync × List UInt8 :=
  ({ ts with seq := ts.seq + 1, hist := ts.hist.put ⟨ts.seq, t0⟩ }, tsReq ts.seq t0)

/-- `tick`, with the request that it sends. -/
def tick (ts : TimeSync) (now t0 : UInt64) : TimeSync × Option (List UInt8) :=
  if ¬ ts.initiator then (ts, none)
  else if now - ts.lastReqUs ≥ ts.periodMs.toUInt64 * 1000 then
    let r := sendReq { ts with lastReqUs := now } t0
    (r.1, some r.2)
  else (ts, none)

/-- `t0` of the search in `on_mux`. -/
def lookup (ts : TimeSync) (seq : UInt16) : UInt64 :=
  ((ts.hist.find? fun h => h.seq = seq).map HistItem.t0).getD 0

/-- `on_mux` from the computation of the round trip on. -/
def onResp (ts : TimeSync) (t0 t1 t2 t3 : UInt64) : TimeSync :=
  let rtt := tsRtt t0 t1 t2 t3
  let ts := { ts with rttUsLast := rtt.toUInt32 }
  if ts.maxRttUs ≠ 0 ∧ rtt > ts.maxRttUs.toUInt64 then ts
  else
    { ts with
      offsetUs := tsFilter ts.offsetUs (tsOffset t0 t1 t2 t3)
      mappingValid := true
      mappingVersion := ts.mappingVersion + 1
      lastDeviceTimeUs := t2
      lastHostTimeUs := t3 }

/-- `on_mux`, with the answer that it sends; `now` and `now'` are its readings of the clock. -/
def onMux (ts : TimeSync) (now now' : UInt64) (pl : List UInt8) (len : ℕ) : TimeSync × Option (List UInt8) :=
  if len < 2 then (ts, none)
  else
    let sid := readU16Le pl
    if sid = tsSidReq then
      if len < 2 + 2 + 8 then (ts, none)
      else (ts, some (tsResp (readU16Le (pl.drop 2)) now now'))
    else if sid ≠ tsSidResp then (ts, none)
    else if len < 2 + 2 + 8 + 8 then (ts, none)
    else
      let resp := readTsResp pl
      let t0 := ts.lookup resp.seq
      if t0 = 0 then (ts, none) else (ts.onResp t0 resp.t1 resp.t2 now, none)

end TimeSync

/-! ### The device -/

/-- `struct time_sync_channel`. -/
structure TimeSyncChannel extends TimeSync where
  offsetOriginUs : Int64 := 0
  offsetOriginValid : Bool := false
  offsetDisplayUs : Int64 := 0

namespace TimeSyncChannel

def histPut (ts : TimeSyncChannel) (seq : UInt16) (t0 : UInt64) : TimeSyncChannel :=
  { ts with hist := ts.hist.put ⟨seq, t0⟩ }

def histGet (ts : TimeSyncChannel) (seq : UInt16) : Option UInt64 :=
  (ts.hist.find? fun h => h.seq = seq).map HistItem.t0

/-- `on_rx` behind `hist_get`. -/
def onResp (ts : TimeSyncChannel) (t0 t1 t2 t3 : UInt64) : TimeSyncChannel :=
  let rtt := tsRtt t0 t1 t2 t3
  let ts := { ts with rttUsLast := rtt.toUInt32 }
  let offset := tsOffset t0 t1 t2 t3
  if ts.maxRttUs = 0 ∨ rtt ≤ ts.maxRttUs.toUInt64 then
    let ts :=
      if ¬ ts.offsetOriginValid then { ts with offsetOriginUs := offset, offsetOriginValid := true } else ts
    let rel := offset - ts.offsetOriginUs
    { ts with
      offsetUs := tsFilter ts.offsetUs offset
      offsetDisplayUs := tsFilter ts.offsetDisplayUs rel
      lastDeviceTimeUs := t2
      lastHostTimeUs := t3
      mappingValid := true
      mappingVersion := ts.mappingVersion + 1 }
  else ts

/-- `on_rx`, with the answer that it queues; `now` and `now'` are its readings of the clock. -/
def onRx (ts : TimeSyncChannel) (now now' : UInt64) (payload : List UInt8) (len : ℕ) :
    TimeSyncChannel × Option (List UInt8) :=
  if len < 2 then (ts, none)
  else
    let sid := readU16Le payload
    if sid = tsSidReq then
      if len < 2 + 2 + 8 then (ts, none)
      else (ts, some (tsResp (readU16Le (payload.drop 2)) now now'))
    else if sid = tsSidResp then
      if len < 2 + 2 + 8 + 8 then (ts, none)
      else
        let resp := readTsResp payload
        match ts.histGet resp.seq with
        | none => (ts, none)
        | some t0 => (ts.onResp t0 resp.t1 resp.t2 now, none)
    else (ts, none)

/-- `on_tick`, with the request that it queues. -/
def onTick (ts : TimeSyncChannel) (now : UInt64) : TimeSyncChannel × Option (List UInt8) :=
  if ¬ ts.initiator then (ts, none)
  else if now - ts.lastReqUs ≥ ts.periodMs.toUInt64 * 1000 then
    let seq := ts.seq
    let ts := { ts with lastReqUs := now, seq := ts.seq + 1 }
    (ts.histPut seq now, some (tsReq seq now))
  else (ts, none)

/-- `time_sync_channel_init_ex`. -/
def init (periodMs : UInt32) (initiator : Bool) (maxRttUs : UInt32) : TimeSyncChannel :=
  { periodMs := if periodMs = 0 then 1000 else periodMs, initiator := initiator, maxRttUs := maxRttUs }

end TimeSyncChannel

end SpVision
