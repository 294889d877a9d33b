import SpVision.Driver.Mux

set_option autoImplicit false

/-!
# The fire interlock

The link keeps the latest referee message, and `Dm02::send` fires only if it allows it. A
status word of zero passes for the old layout, which has none.
-/
namespace SpVision

/-! ### `LinkImpl` -/

/-- `io::RefereeStatus`. -/
structure LinkReferee where
  valid : Bool := false
  status : UInt16 := 0
  enemyTeam : Int32 := 0
  fireAllowed : Bool := false
  robotId : Int32 := 0
  gameStage : Int32 := 0
  deviceTsUs : UInt64 := 0
  hostTsNs : UInt64 := 0
  deriving DecidableEq, Repr

def onRefereeStatus (rs : RefereeStatus) : LinkReferee :=
  { status := rs.status
    -- old firmware has no status word
    valid := if rs.status ≠ 0 then rs.status &&& 0x0001 ≠ 0 else true
    enemyTeam := rs.enemyTeam
    fireAllowed := rs.fireAllowed ≠ 0
    robotId := rs.robotId
    gameStage := rs.gameStage
    deviceTsUs := rs.deviceTsUs
    hostTsNs := rs.hostTsNs }

structure FireCommand where
  fireOn : Int32
  fireMode : Int32
  burstCount : Int32
  status : UInt16
  hostTsNs : UInt64
  deviceTsUs : UInt64 := 0
  deriving DecidableEq, Repr

/-- `LinkImpl::send_fire`; `none` if the driver is not open. -/
def linkSendFire (isOpen : Bool) (now : UInt64) (fireOn : Bool) (fireMode burstCount : Int32)
    (status : UInt16) : Option FireCommand :=
  if ¬ isOpen then none
  else
    some { fireOn := if fireOn then 1 else 0, fireMode := fireMode, burstCount := burstCount
           status := status, hostTsNs := now }

/-! ### `Dm02` -/

def kRefereeStaleNs : UInt64 := 1000 * 1000 * 1000

def refereeCanFire (rs : LinkReferee) (nowNs : UInt64) : Bool :=
  if ¬ (rs.valid ∧ rs.fireAllowed) then false
  else if rs.hostTsNs = 0 then false
  else if nowNs < rs.hostTsNs then false
  else nowNs - rs.hostTsNs ≤ kRefereeStaleNs

/-- A call of `Dm02::send`, with what it reads of the clock for the decision and for the command. -/
structure SendCall where
  control : Bool
  fire : Bool
  now : UInt64
  commandNow : UInt64
  isOpen : Bool
  deriving DecidableEq, Repr

/-- The FIRE command of `Dm02::send`. -/
def dm02SendFire (ref : LinkReferee) (call : SendCall) : Option FireCommand :=
  let fireOn := call.control && call.fire && refereeCanFire ref call.now
  linkSendFire call.isOpen call.commandNow fireOn 2 (if fireOn then 2 else 0)
    (if call.control then 0x0001 else 0)

/-! ### Runs -/

inductive Dm02Input
  | muxFrame (now : UInt64) (data : List UInt8)
  | send (call : SendCall)
  deriving DecidableEq, Repr

/-- The part of the host that the interlock depends on: `last_referee` of the driver and `referee_`
    of the link. -/
structure Dm02 where
  lastReferee : Option RefereeStatus := none
  referee : LinkReferee := {}

namespace Dm02

variable (config : DriverConfig) (deltaAck : Bool)

def step (x : Dm02) : Dm02Input → Dm02
  | .muxFrame now data =>
    match handleMux config deltaAck now data with
    | some (.referee rs) => { lastReferee := some rs, referee := onRefereeStatus rs }
    | _ => x
  | .send _ => x

def run (x : Dm02) (inputs : List Dm02Input) : Dm02 := inputs.foldl (step config deltaAck) x

end Dm02

/-! ### The latest referee message -/

/-- An accepted referee message as it was received. -/
structure RefereeMessage where
  payload : List UInt8
  received : UInt64
  deriving DecidableEq, Repr

namespace RefereeMessage

def fireAllowed (r : RefereeMessage) : Int32 := readI32Le (r.payload.drop 6)

/-- The status word, in the layout that carries one. -/
def statusWord (r : RefereeMessage) : Option UInt16 :=
  if 28 ≤ r.payload.length then some (readU16Le (r.payload.drop 18)) else none

def Recent (r : RefereeMessage) (now : UInt64) : Prop := r.received ≤ now ∧ now - r.received ≤ 1000000000

def parsed (r : RefereeMessage) : RefereeStatus := readReferee r.payload r.payload.length r.received

end RefereeMessage

section Latest

variable (config : DriverConfig) (deltaAck : Bool)

def refereeMessage? : Dm02Input → Option RefereeMessage
  | .muxFrame now data =>
    match handleMux config deltaAck now data with
    | some (.referee _) => some ⟨muxPayload data, now⟩
    | _ => none
  | .send _ => none

def latestReferee (inputs : List Dm02Input) : Option RefereeMessage :=
  inputs.reverse.findSome? (refereeMessage? config deltaAck)

end Latest

variable {config : DriverConfig} {deltaAck : Bool}

theorem latestReferee_append_singleton (inputs : List Dm02Input) (input : Dm02Input) :
    latestReferee config deltaAck (inputs ++ [input]) =
      (refereeMessage? config deltaAck input).or (latestReferee config deltaAck inputs) := by
  unfold latestReferee
  rw [List.reverse_append, List.reverse_singleton, List.singleton_append, List.findSome?_cons]
  cases refereeMessage? config deltaAck input <;> rfl

/-- The link holds the latest referee message as the driver parsed it. -/
theorem Dm02.run_referee (inputs : List Dm02Input) : (Dm02.run config deltaAck {} inputs).referee =
    ((latestReferee config deltaAck inputs).map fun r => onRefereeStatus r.parsed).getD {} := by
  induction inputs using List.reverseRecOn with
  | nil => rfl
  | append_singleton inputs input ih =>
    rw [latestReferee_append_singleton, Dm02.run, List.foldl_append]
    change (Dm02.step config deltaAck (Dm02.run config deltaAck {} inputs) input).referee = _
    cases input with
    | send call => exact ih
    | muxFrame now data =>
      unfold Dm02.step refereeMessage?
      dsimp only
      cases hmessage : handleMux config deltaAck now data with
      | none => exact ih
      | some message =>
        cases message
        case referee rs =>
          rw [(handleMux_referee hmessage).2.2]
          rfl
        all_goals exact ih

/-! ### Firing -/

theorem RefereeMessage.parsed_status (r : RefereeMessage) : r.parsed.status = r.statusWord.getD 0 := by
  unfold parsed readReferee statusWord
  dsimp only [refereeStatusLen]
  split_ifs <;> rfl

theorem onRefereeStatus_valid (rs : RefereeStatus) :
    (onRefereeStatus rs).valid ↔ rs.status = 0 ∨ rs.status &&& 0x0001 ≠ 0 := by
  unfold onRefereeStatus
  dsimp only
  split_ifs with hstatus
  · simp [hstatus]
  · simp [not_not.mp hstatus]

theorem refereeCanFire_iff (ref : LinkReferee) (now : UInt64) : refereeCanFire ref now ↔
    ref.valid ∧ ref.fireAllowed ∧ ref.hostTsNs ≠ 0 ∧ ref.hostTsNs ≤ now ∧ now - ref.hostTsNs ≤ 1000000000 := by
  have hstale : kRefereeStaleNs = 1000000000 := by decide
  unfold refereeCanFire
  rw [hstale]
  split_ifs with hvalid hzero hfuture
  · exact iff_of_false id fun h => h.2.2.1 hzero
  · exact iff_of_false id fun h => UInt64.not_lt.mpr h.2.2.2.1 hfuture
  · rw [decide_eq_true_iff]
    exact ⟨fun hfresh => ⟨hvalid.1, hvalid.2, hzero, UInt64.not_lt.mp hfuture, hfresh⟩, fun h => h.2.2.2.2⟩
  · exact iff_of_false id fun h => hvalid ⟨h.1, h.2.1⟩

theorem dm02SendFire_fireOn {ref : LinkReferee} {call : SendCall} {cmd : FireCommand}
    (h : dm02SendFire ref call = some cmd) :
    cmd.fireOn = 1 ↔ call.control ∧ call.fire ∧ refereeCanFire ref call.now := by
  have hfire : (call.control ∧ call.fire ∧ refereeCanFire ref call.now) ↔
      (call.control && call.fire && refereeCanFire ref call.now) = true := by
    rw [Bool.and_eq_true, Bool.and_eq_true, and_assoc]
  rw [hfire]
  unfold dm02SendFire linkSendFire at h
  dsimp only at h
  generalize (call.control && call.fire && refereeCanFire ref call.now) = fireOn at h ⊢
  by_cases hopen : call.isOpen
  · rw [if_neg (not_not.mpr hopen)] at h
    cases h
    cases fireOn <;> simp
  · rw [if_pos hopen] at h
    cases h

/-- What the interlock asks of the latest referee message. -/
structure RefereeMessage.Allows (r : RefereeMessage) (now : UInt64) : Prop where
  recent : r.Recent now
  allowed : r.fireAllowed ≠ 0
  valid : ∀ status, r.statusWord = some status → status &&& 0x0001 ≠ 0

/-- A message that passes for one of the old layout: its status word is there, and zero. -/
structure RefereeMessage.ZeroStatus (r : RefereeMessage) (now : UInt64) : Prop where
  status : r.statusWord = some 0
  allowed : r.fireAllowed ≠ 0
  received : r.received ≠ 0
  recent : r.Recent now

theorem refereeCanFire_parsed (r : RefereeMessage) (now : UInt64) :
    refereeCanFire (onRefereeStatus r.parsed) now ↔ r.received ≠ 0 ∧ r.Allows now ∨ r.ZeroStatus now := by
  have hallowed : (onRefereeStatus r.parsed).fireAllowed ↔ r.fireAllowed ≠ 0 := decide_eq_true_iff
  rw [refereeCanFire_iff, onRefereeStatus_valid, hallowed, r.parsed_status]
  change _ ∧ _ ∧ r.received ≠ 0 ∧ r.Recent now ↔ _
  constructor
  · rintro ⟨hstatus, hfireAllowed, hreceived, hrecent⟩
    cases hword : r.statusWord with
    | none => exact .inl ⟨hreceived, hrecent, hfireAllowed, by simp [hword]⟩
    | some status =>
      rw [hword, Option.getD_some] at hstatus
      rcases hstatus with hzero | hvalid
      · exact .inr ⟨by rw [hword, hzero], hfireAllowed, hreceived, hrecent⟩
      · exact .inl ⟨hreceived, hrecent, hfireAllowed, by simpa [hword] using hvalid⟩
  · rintro (⟨hreceived, hrecent, hfireAllowed, hvalid⟩ | ⟨hword, hfireAllowed, hreceived, hrecent⟩)
    · refine ⟨?_, hfireAllowed, hreceived, hrecent⟩
      cases hword : r.statusWord with
      | none => exact .inl rfl
      | some status => exact .inr (hvalid status hword)
    · exact ⟨.inl (by rw [hword]; rfl), hfireAllowed, hreceived, hrecent⟩

/-- The fire interlock. A FIRE command goes out with `fire_on` set only if control and fire are
    asked for and the latest referee message is recent and allows it with a valid status word if it
    has one, exactly if no shot is asked for while the latest message has a status word of zero. -/
theorem dm02SendFire_interlock_iff (config : DriverConfig) (deltaAck : Bool) (inputs : List Dm02Input) :
    (∀ pre call post cmd, inputs = pre ++ .send call :: post →
      dm02SendFire (Dm02.run config deltaAck {} pre).referee call = some cmd → cmd.fireOn = 1 →
        call.control ∧ call.fire ∧ ∃ r, latestReferee config deltaAck pre = some r ∧ r.Allows call.now) ↔
      ∀ pre call post r, inputs = pre ++ .send call :: post → call.isOpen → call.control → call.fire →
        latestReferee config deltaAck pre = some r → ¬ r.ZeroStatus call.now := by
  constructor
  · intro h pre call post r hsplit hopen hcontrol hfire hlatest hzero
    have hfires : refereeCanFire (Dm02.run config deltaAck {} pre).referee call.now := by
      rw [Dm02.run_referee, hlatest]
      exact (refereeCanFire_parsed r call.now).mpr (.inr hzero)
    obtain ⟨cmd, hcmd⟩ : ∃ cmd, dm02SendFire (Dm02.run config deltaAck {} pre).referee call = some cmd :=
      ⟨_, if_neg (not_not.mpr hopen)⟩
    obtain ⟨-, -, r', hlatest', hallows⟩ :=
      h pre call post cmd hsplit hcmd ((dm02SendFire_fireOn hcmd).mpr ⟨hcontrol, hfire, hfires⟩)
    cases hlatest.symm.trans hlatest'
    exact hallows.valid 0 hzero.status (by decide)
  · intro h pre call post cmd hsplit hcmd hfireOn
    obtain ⟨hcontrol, hfire, hfires⟩ := (dm02SendFire_fireOn hcmd).mp hfireOn
    refine ⟨hcontrol, hfire, ?_⟩
    rw [Dm02.run_referee] at hfires
    cases hlatest : latestReferee config deltaAck pre with
    | none =>
      rw [hlatest] at hfires
      cases ((refereeCanFire_iff _ _).mp hfires).1
    | some r =>
      rw [hlatest] at hfires
      rcases (refereeCanFire_parsed r call.now).mp hfires with hallows | hzero
      · exact ⟨r, rfl, hallows.2⟩
      · have hopen : call.isOpen := by
          by_contra hclosed
          cases hcmd.symm.trans (if_pos hclosed)
        exact absurd hzero (h pre call post r hsplit hopen hcontrol hfire hlatest)

/-- A referee frame of 28 bytes whose status word is zero and whose fire flag is set. -/
def zeroStatusFrame : List UInt8 :=
  let pl := writeU16Le gimbalSidReferee ++ writeU32Le 0 ++ writeU32Le 1 ++ List.replicate 18 0
  (muxEncode commMuxTxBufferSize
    { sof := muxSof, ver := muxVer, channel := gimbalChId, flags := 0, len := 28
      sid := gimbalSidReferee, seq := 1, rsv := 0 } pl).getD []

/-- A millisecond after the message the shot is fired, with the valid bit clear. -/
theorem dm02SendFire_zero_status : ∃ inputs call r cmd,
    inputs = [.muxFrame 5000000 zeroStatusFrame] ∧ latestReferee {} false inputs = some r ∧
      r.statusWord = some 0 ∧ dm02SendFire (Dm02.run {} false {} inputs).referee call = some cmd ∧
      cmd.fireOn = 1 ∧ ¬ r.Allows call.now := by
  refine ⟨_, ⟨true, true, 6000000, 6000000, true⟩, ⟨muxPayload zeroStatusFrame, 5000000⟩,
    ⟨1, 2, 2, 1, 6000000, 0⟩, rfl, by decide +kernel, by decide +kernel, by decide +kernel, rfl, ?_⟩
  intro hallows
  exact hallows.valid 0 (by decide +kernel) (by decide)

end SpVision
