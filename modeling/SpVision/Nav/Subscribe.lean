import SpVision.Library.Runs
import SpVision.Link.Attitude

set_option autoImplicit false

/-!
# The topics from the navigation

Each topic keeps its last message. The executor runs the callbacks one after another. A wall timer expires
when it is due or later, and again a period after that, until it is cancelled.
-/
namespace SpVision

structure EnemyStatusMsg where
  invincibleEnemyIds : List Int8
  deriving DecidableEq, Repr

structure AutoaimTargetMsg where
  targetIds : List Int8
  deriving DecidableEq, Repr

/-- `std::chrono::milliseconds(1500)` in nanoseconds. -/
def clearPeriod : ℤ := 1500000000

/-- The queue, the counter and the timer of one topic; the timer by the time when it is due. -/
structure NavTopic (μ : Type) where
  queue : List μ := []
  counter : ℤ := 0
  timer : Option ℤ := none
  deriving DecidableEq, Repr

namespace NavTopic

variable {μ : Type}

def callback (now : ℤ) (topic : NavTopic μ) (msg : μ) : NavTopic μ :=
  let topic := { topic with queue := queuePush 1 [] msg, counter := topic.counter + 1 }
  if topic.counter ≥ 2 then { topic with timer := some (now + clearPeriod) } else topic

/-- What the timer runs; it is not cancelled and is due again at `next`. -/
def onTimer (topic : NavTopic μ) (next : ℤ) : NavTopic μ :=
  { topic with queue := [], counter := 0, timer := some next }

def subscribe (ids : μ → List Int8) (topic : NavTopic μ) : List Int8 :=
  match topic.queue.getLast? with
  | none => []
  | some msg => ids msg

theorem callback_queue (now : ℤ) (topic : NavTopic μ) (msg : μ) : (topic.callback now msg).queue = [msg] := by
  unfold callback
  dsimp only
  split_ifs <;> rfl

theorem callback_counter (now : ℤ) (topic : NavTopic μ) (msg : μ) :
    (topic.callback now msg).counter = topic.counter + 1 := by
  unfold callback
  dsimp only
  split_ifs <;> rfl

theorem callback_timer {now : ℤ} {topic : NavTopic μ} (msg : μ) (h : 2 ≤ topic.counter + 1) :
    (topic.callback now msg).timer = some (now + clearPeriod) := congrArg timer (if_pos h)

end NavTopic

structure Subscribe2Nav where
  enemyStatus : NavTopic EnemyStatusMsg := {}
  autoaimTarget : NavTopic AutoaimTargetMsg := {}
  deriving DecidableEq, Repr

namespace Subscribe2Nav

def enemyStatusCallback (now : ℤ) (nav : Subscribe2Nav) (msg : EnemyStatusMsg) : Subscribe2Nav :=
  { nav with enemyStatus := nav.enemyStatus.callback now msg }

def autoaimTargetCallback (now : ℤ) (nav : Subscribe2Nav) (msg : AutoaimTargetMsg) : Subscribe2Nav :=
  { nav with autoaimTarget := nav.autoaimTarget.callback now msg }

def subscribeEnemyStatus (nav : Subscribe2Nav) : List Int8 := nav.enemyStatus.subscribe (·.invincibleEnemyIds)

def subscribeAutoaimTarget (nav : Subscribe2Nav) : List Int8 := nav.autoaimTarget.subscribe (·.targetIds)

end Subscribe2Nav

/-! ### One topic over time -/

inductive TopicInput (μ : Type)
  | message (msg : μ)
  | timer (next : ℤ)
  | wait (d : ℕ)

/-- A topic, the time, and the last message with the time when it came, which the code does not note. -/
structure TopicMachine (μ : Type) where
  now : ℤ
  topic : NavTopic μ
  arrived : Option (ℤ × μ)

namespace TopicMachine

variable {μ : Type}

def step (m : TopicMachine μ) : TopicInput μ → TopicMachine μ
  | .message msg => { m with topic := m.topic.callback m.now msg, arrived := some (m.now, msg) }
  | .timer next => { m with topic := m.topic.onTimer next }
  | .wait d => { m with now := m.now + d }

/-- The timer expires only when it is due, and is next due a period after that or later. -/
def Legal (m : TopicMachine μ) : TopicInput μ → Prop
  | .timer next => ∃ due ∈ m.topic.timer, due ≤ m.now ∧ due + clearPeriod ≤ next
  | _ => True

instance (m : TopicMachine μ) : DecidablePred m.Legal
  | .message _ => isTrue trivial
  | .timer next => inferInstanceAs (Decidable (∃ due ∈ m.topic.timer, due ≤ m.now ∧ due + clearPeriod ≤ next))
  | .wait _ => isTrue trivial

variable (ids : μ → List Int8)

/-- The last message is read for 1500 ms. -/
def Retained (m : TopicMachine μ) : Prop :=
  ∀ last ∈ m.arrived, m.now < last.1 + clearPeriod → m.topic.subscribe ids = ids last.2

/-- If the timer expires when one message has come since it last did, that message has been there for 1500 ms, or it
    names nobody. -/
def Spares (m : TopicMachine μ) : TopicInput μ → Prop
  | .timer _ => m.topic.counter = 1 → ∀ last ∈ m.arrived, last.1 + clearPeriod ≤ m.now ∨ ids last.2 = []
  | _ => True

instance (m : TopicMachine μ) : DecidablePred (m.Spares ids)
  | .message _ => isTrue trivial
  | .timer _ => inferInstanceAs (Decidable
      (m.topic.counter = 1 → ∀ last ∈ m.arrived, last.1 + clearPeriod ≤ m.now ∨ ids last.2 = []))
  | .wait _ => isTrue trivial

/-- The second message after the timer has expired, and each one behind it, starts a timer of its own. -/
structure Inv (m : TopicMachine μ) : Prop where
  retained : m.Retained ids
  counter_nonneg : 0 ≤ m.topic.counter
  empty : m.topic.counter = 0 → m.topic.queue = []
  rearmed : 2 ≤ m.topic.counter → ∃ last ∈ m.arrived, ∃ due ∈ m.topic.timer, last.1 + clearPeriod ≤ due

theorem inv_message {m : TopicMachine μ} (h : m.Inv ids) (msg : μ) : (m.step (.message msg)).Inv ids := by
  refine ⟨?_, ?_, ?_, ?_⟩
  · intro last hlast _
    obtain rfl := Option.some.inj hlast
    rw [step, NavTopic.subscribe, NavTopic.callback_queue]
    rfl
  · have hnonneg := h.counter_nonneg
    rw [step, NavTopic.callback_counter]
    omega
  · intro hzero
    have hnonneg := h.counter_nonneg
    rw [step, NavTopic.callback_counter] at hzero
    omega
  · intro htwo
    rw [step, NavTopic.callback_counter] at htwo
    exact ⟨(m.now, msg), rfl, m.now + clearPeriod, NavTopic.callback_timer msg htwo, le_rfl⟩

theorem inv_wait {m : TopicMachine μ} (h : m.Inv ids) (d : ℕ) : (m.step (.wait d)).Inv ids where
  retained last hlast hnow := by
    change m.now + (d : ℤ) < last.1 + clearPeriod at hnow
    exact h.retained last hlast (by omega)
  counter_nonneg := h.counter_nonneg
  empty := h.empty
  rearmed := h.rearmed

/-- The timer takes nothing away too early if and only if it spares a message that came alone. -/
theorem inv_timer_iff {m : TopicMachine μ} (h : m.Inv ids) {next : ℤ} (hlegal : m.Legal (.timer next)) :
    (m.step (.timer next)).Retained ids ↔ m.Spares ids (.timer next) := by
  constructor
  · intro hretained hone last hlast
    rcases le_or_gt (last.1 + clearPeriod) m.now with hold | hnew
    · exact .inl hold
    · exact .inr (hretained last hlast hnew).symm
  · intro hspares last hlast hnow
    change m.now < last.1 + clearPeriod at hnow
    change [] = ids last.2
    obtain ⟨due, hdue, hpast, -⟩ := hlegal
    rcases lt_trichotomy m.topic.counter 1 with hzero | hone | htwo
    · have hempty := h.empty (by have := h.counter_nonneg; omega)
      have hsame := h.retained last hlast hnow
      rwa [NavTopic.subscribe, hempty] at hsame
    · exact ((hspares hone last hlast).resolve_left (not_le.mpr hnow)).symm
    · obtain ⟨last', hlast', due', hdue', hlong⟩ := h.rearmed (by omega)
      obtain rfl := Option.some.inj (hlast'.symm.trans hlast)
      obtain rfl := Option.some.inj (hdue'.symm.trans hdue)
      omega

theorem inv_step_iff {m : TopicMachine μ} (h : m.Inv ids) {input : TopicInput μ} (hlegal : m.Legal input) :
    (m.step input).Retained ids ↔ m.Spares ids input := by
  cases input with
  | message msg => exact iff_of_true (inv_message ids h msg).retained trivial
  | timer next => exact inv_timer_iff ids h hlegal
  | wait d => exact iff_of_true (inv_wait ids h d).retained trivial

theorem inv_step {m : TopicMachine μ} (h : m.Inv ids) {input : TopicInput μ} (hretained : (m.step input).Retained ids) :
    (m.step input).Inv ids := by
  cases input with
  | message msg => exact inv_message ids h msg
  | timer next => exact ⟨hretained, le_rfl, fun _ => rfl, fun htwo => absurd htwo (by decide : ¬ (2 : ℤ) ≤ 0)⟩
  | wait d => exact inv_wait ids h d

theorem inv_start (now : ℤ) : Inv ids (⟨now, {}, none⟩ : TopicMachine μ) where
  retained _ hlast := nomatch hlast
  counter_nonneg := le_rfl
  empty _ := rfl
  rearmed htwo := absurd htwo (by decide : ¬ (2 : ℤ) ≤ 0)

end TopicMachine

/-! ### Both topics over time -/

inductive NavInput
  | enemyStatus (msg : EnemyStatusMsg)
  | autoaimTarget (msg : AutoaimTargetMsg)
  | enemyStatusTimer (next : ℤ)
  | autoaimTargetTimer (next : ℤ)
  | wait (d : ℕ)
  deriving DecidableEq, Repr

structure NavMachine where
  now : ℤ
  node : Subscribe2Nav := {}
  enemyStatusArrived : Option (ℤ × EnemyStatusMsg) := none
  autoaimTargetArrived : Option (ℤ × AutoaimTargetMsg) := none

namespace NavMachine

def step (m : NavMachine) : NavInput → NavMachine
  | .enemyStatus msg =>
    { m with node := m.node.enemyStatusCallback m.now msg, enemyStatusArrived := some (m.now, msg) }
  | .autoaimTarget msg =>
    { m with node := m.node.autoaimTargetCallback m.now msg, autoaimTargetArrived := some (m.now, msg) }
  | .enemyStatusTimer next => { m with node := { m.node with enemyStatus := m.node.enemyStatus.onTimer next } }
  | .autoaimTargetTimer next => { m with node := { m.node with autoaimTarget := m.node.autoaimTarget.onTimer next } }
  | .wait d => { m with now := m.now + d }

def enemyStatus (m : NavMachine) : TopicMachine EnemyStatusMsg := ⟨m.now, m.node.enemyStatus, m.enemyStatusArrived⟩

def autoaimTarget (m : NavMachine) : TopicMachine AutoaimTargetMsg :=
  ⟨m.now, m.node.autoaimTarget, m.autoaimTargetArrived⟩

end NavMachine

/-- What a topic sees of an input; what is about the other topic is a wait of no time. -/
def NavInput.forEnemyStatus : NavInput → TopicInput EnemyStatusMsg
  | .enemyStatus msg => .message msg
  | .enemyStatusTimer next => .timer next
  | .wait d => .wait d
  | _ => .wait 0

def NavInput.forAutoaimTarget : NavInput → TopicInput AutoaimTargetMsg
  | .autoaimTarget msg => .message msg
  | .autoaimTargetTimer next => .timer next
  | .wait d => .wait d
  | _ => .wait 0

namespace NavMachine

def Legal (m : NavMachine) (input : NavInput) : Prop :=
  m.enemyStatus.Legal input.forEnemyStatus ∧ m.autoaimTarget.Legal input.forAutoaimTarget

instance (m : NavMachine) : DecidablePred m.Legal := fun _ => inferInstanceAs (Decidable (_ ∧ _))

def Retained (m : NavMachine) : Prop :=
  (∀ last ∈ m.enemyStatusArrived, m.now < last.1 + clearPeriod →
    m.node.subscribeEnemyStatus = last.2.invincibleEnemyIds) ∧
  (∀ last ∈ m.autoaimTargetArrived, m.now < last.1 + clearPeriod →
    m.node.subscribeAutoaimTarget = last.2.targetIds)

instance (m : NavMachine) : Decidable m.Retained := inferInstanceAs (Decidable (_ ∧ _))

def Spares (m : NavMachine) (input : NavInput) : Prop :=
  m.enemyStatus.Spares (·.invincibleEnemyIds) input.forEnemyStatus ∧
  m.autoaimTarget.Spares (·.targetIds) input.forAutoaimTarget

instance (m : NavMachine) : DecidablePred m.Spares := fun _ => inferInstanceAs (Decidable (_ ∧ _))

structure Inv (m : NavMachine) : Prop where
  enemyStatus : m.enemyStatus.Inv (·.invincibleEnemyIds)
  autoaimTarget : m.autoaimTarget.Inv (·.targetIds)

theorem step_enemyStatus (m : NavMachine) (input : NavInput) :
    (m.step input).enemyStatus = m.enemyStatus.step input.forEnemyStatus := by
  cases input <;> simp [step, enemyStatus, NavInput.forEnemyStatus, TopicMachine.step,
    Subscribe2Nav.enemyStatusCallback, Subscribe2Nav.autoaimTargetCallback]

theorem step_autoaimTarget (m : NavMachine) (input : NavInput) :
    (m.step input).autoaimTarget = m.autoaimTarget.step input.forAutoaimTarget := by
  cases input <;> simp [step, autoaimTarget, NavInput.forAutoaimTarget, TopicMachine.step,
    Subscribe2Nav.enemyStatusCallback, Subscribe2Nav.autoaimTargetCallback]

theorem retained_iff (m : NavMachine) : m.Retained ↔
    m.enemyStatus.Retained (·.invincibleEnemyIds) ∧ m.autoaimTarget.Retained (·.targetIds) := Iff.rfl

theorem retained_step_iff {m : NavMachine} (h : m.Inv) {input : NavInput} (hlegal : m.Legal input) :
    (m.step input).Retained ↔ m.Spares input := by
  rw [retained_iff, step_enemyStatus, step_autoaimTarget]
  exact and_congr (TopicMachine.inv_step_iff _ h.enemyStatus hlegal.1)
    (TopicMachine.inv_step_iff _ h.autoaimTarget hlegal.2)

theorem inv_step {m : NavMachine} (h : m.Inv) {input : NavInput} (hretained : (m.step input).Retained) :
    (m.step input).Inv := by
  rw [retained_iff, step_enemyStatus, step_autoaimTarget] at hretained
  constructor
  · rw [step_enemyStatus]
    exact TopicMachine.inv_step _ h.enemyStatus hretained.1
  · rw [step_autoaimTarget]
    exact TopicMachine.inv_step _ h.autoaimTarget hretained.2

theorem inv_start (now : ℤ) : Inv { now } := ⟨TopicMachine.inv_start _ now, TopicMachine.inv_start _ now⟩

end NavMachine

/-- Both topics keep their last message for 1500 ms, at all times, if and only if no expiry of a timer meets a message
    that came alone less than 1500 ms ago. -/
theorem nav_input_retained_iff (now : ℤ) (inputs : List NavInput)
    (hlegal : AllRuns.LegalRun NavMachine.step NavMachine.Legal { now } inputs) :
    AllRuns.Always NavMachine.step NavMachine.Retained { now } inputs ↔
      AllRuns.EachStep NavMachine.step NavMachine.Spares { now } inputs := by
  refine AllRuns.always_iff NavMachine.step ?_ ?_ ?_ (NavMachine.inv_start now) hlegal
  · intro m hinv
    exact ⟨hinv.enemyStatus.retained, hinv.autoaimTarget.retained⟩
  · intro m input hinv hinput
    exact NavMachine.retained_step_iff hinv hinput
  · intro m input hinv hretained
    exact NavMachine.inv_step hinv hretained

/-- Two messages a second apart and the expiry 1500 ms after the second. -/
def twoMessages : List NavInput :=
  [.enemyStatus ⟨[1]⟩, .wait 1000000000, .enemyStatus ⟨[2]⟩, .wait 1500000000, .enemyStatusTimer 4000000000]

theorem two_messages_retained : AllRuns.Always NavMachine.step NavMachine.Retained { now := 0 } twoMessages := by
  refine (nav_input_retained_iff 0 twoMessages (by decide)).mpr ?_
  intro pre input hpre
  have hmem : ∀ whole ∈ twoMessages.inits, ∀ input ∈ whole.getLast?,
      (whole.dropLast.foldl NavMachine.step { now := 0 }).Spares input := by decide
  have hspares := hmem (pre ++ [input]) ((List.mem_inits _ _).mpr hpre) input (List.getLast?_concat ..)
  rwa [List.dropLast_concat] at hspares

/-- The timer goes on after its first expiry, and a third message meets the second one 100 ms after it came. -/
theorem third_message_dropped :
    AllRuns.LegalRun NavMachine.step NavMachine.Legal { now := 0 } (twoMessages ++
      [.wait 1400000000, .enemyStatus ⟨[3]⟩, .wait 100000000, .enemyStatusTimer 5500000000]) ∧
    ¬ AllRuns.Always NavMachine.step NavMachine.Retained { now := 0 } (twoMessages ++
      [.wait 1400000000, .enemyStatus ⟨[3]⟩, .wait 100000000, .enemyStatusTimer 5500000000]) := by
  refine ⟨by decide, fun hall => ?_⟩
  exact absurd (hall _ (List.prefix_refl _)) (by decide)

end SpVision
