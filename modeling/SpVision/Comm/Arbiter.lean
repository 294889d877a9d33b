import SpVision.Comm.Channel
import SpVision.Library.Aging

set_option autoImplicit false

/-!
# The arbiter serves by priority, turns and age

The pending notifications form a queue with aging, and each tick of the arbiter makes
the choice that such a queue asks for.
-/
namespace SpVision
open Aging

/-! ### The queue of pending notifications -/

def ChannelManager.prio (m : ChannelManager) (i : Fin chMax) : ℕ :=
  ((m.slots i).map fun ch => ch.priority.toNat).getD 0

def ChUprotoBind.queue (b : ChUprotoBind) (m : ChannelManager) : Queue (Fin chMax) where
  waiting i := (b.pending i).used
  age i := (b.pending i).age
  rank i := if i.val < m.count then cycleOffset m.count (b.rrCursor % m.count) i else 0

theorem ChannelManager.mem_indices {m : ChannelManager} {i : Fin chMax} :
    i ∈ m.indices ↔ i.val < m.count := by
  simp [indices]

theorem ChannelManager.prio_eq {m : ChannelManager} {i : Fin chMax} {ch : Channel}
    (h : m.slots i = some ch) : m.prio i = ch.priority.toNat := by
  rw [prio, h]
  rfl

theorem ChannelManager.exists_slot {m : ChannelManager} {i : Fin chMax} (h : i.val < m.count) :
    ∃ ch, m.slots i = some ch := Option.isSome_iff_exists.mp ((m.registered i).mpr h)

/-! ### The loops of `find_next_ready_index` -/

inductive IsBest (m : ChannelManager) (b : ChUprotoBind) (l : List (Fin chMax)) :
    Option (Fin chMax × UInt8) → Prop
  | none (hidle : ∀ i ∈ l, ¬ (b.pending i).used) : IsBest m b l none
  | some (best : Fin chMax) (ch : Channel) (hmem : best ∈ l) (hused : (b.pending best).used)
      (hch : m.slots best = some ch)
      (htop : ∀ i ∈ l, (b.pending i).used → m.prio i ≤ ch.priority.toNat) :
      IsBest m b l (some (best, ch.priority))

theorem findBest_isBest (m : ChannelManager) (b : ChUprotoBind) : IsBest m b m.indices (findBest m b) := by
  unfold findBest
  have hslots : ∀ i ∈ m.indices, ∃ ch, m.slots i = some ch := fun i hi =>
    m.exists_slot (m.mem_indices.mp hi)
  generalize m.indices = l at hslots
  induction l using List.reverseRecOn with
  | nil => exact .none nofun
  | append_singleton l i ih =>
    obtain ⟨ch, hch⟩ := hslots i (by simp)
    have hbest := ih fun j hj => hslots j (by simp [hj])
    have hprio := m.prio_eq hch
    rw [List.foldl_append, List.foldl_cons, List.foldl_nil]
    generalize l.foldl _ none = best at hbest ⊢
    have hsnoc {P : Fin chMax → Prop} (hl : ∀ j ∈ l, P j) (hi : P i) : ∀ j ∈ l ++ [i], P j :=
      List.forall_mem_append.mpr ⟨hl, List.forall_mem_singleton.mpr hi⟩
    simp only [hch]
    by_cases hused : (b.pending i).used
    · rw [if_neg (not_not.mpr hused)]
      cases hbest with
      | none hidle =>
        refine .some i ch (by simp) hused hch (hsnoc ?_ fun _ => hprio.le)
        exact fun j hj hj' => absurd hj' (hidle j hj)
      | some best ch' hmem hused' hch' htop =>
        dsimp only
        split_ifs with hlt
        · rw [gt_iff_lt, UInt8.lt_iff_toNat_lt] at hlt
          refine .some i ch (by simp) hused hch (hsnoc ?_ fun _ => hprio.le)
          exact fun j hj hj' => (htop j hj hj').trans hlt.le
        · rw [gt_iff_lt, UInt8.lt_iff_toNat_lt] at hlt
          exact .some best ch' (by simp [hmem]) hused' hch' (hsnoc htop fun _ => by omega)
    · rw [if_pos hused]
      cases hbest with
      | none hidle => exact .none (hsnoc hidle hused)
      | some best ch' hmem hused' hch' htop =>
        exact .some best ch' (by simp [hmem]) hused' hch' (hsnoc htop fun hi => absurd hi hused)

/-- An item that the starvation guard looks at. -/
def IsAged (m : ChannelManager) (b : ChUprotoBind) (bestPrio : UInt8) (i : Fin chMax) : Prop :=
  (b.pending i).used ∧ m.prio i < bestPrio.toNat ∧ chArbFairAge ≤ (b.pending i).age

inductive IsOldest (m : ChannelManager) (b : ChUprotoBind) (bestPrio : UInt8) (l : List (Fin chMax)) :
    Option (Fin chMax) × ℕ → Prop
  | none (hnone : ∀ i ∈ l, ¬ IsAged m b bestPrio i) : IsOldest m b bestPrio l (none, 0)
  | some (i : Fin chMax) (hmem : i ∈ l) (haged : IsAged m b bestPrio i)
      (hmax : ∀ j ∈ l, IsAged m b bestPrio j → (b.pending j).age ≤ (b.pending i).age) :
      IsOldest m b bestPrio l (some i, (b.pending i).age)

theorem findAged_isOldest (m : ChannelManager) (b : ChUprotoBind) (bestPrio : UInt8) :
    IsOldest m b bestPrio m.indices (findAged m b bestPrio) := by
  unfold findAged
  have hslots : ∀ i ∈ m.indices, ∃ ch, m.slots i = some ch := fun i hi =>
    m.exists_slot (m.mem_indices.mp hi)
  generalize m.indices = l at hslots
  induction l using List.reverseRecOn with
  | nil => exact .none nofun
  | append_singleton l i ih =>
    obtain ⟨ch, hch⟩ := hslots i (by simp)
    have holdest := ih fun j hj => hslots j (by simp [hj])
    have haged : IsAged m b bestPrio i ↔ (b.pending i).used ∧ ch.priority < bestPrio ∧
        (b.pending i).age ≥ chArbFairAge := by
      rw [IsAged, m.prio_eq hch, UInt8.lt_iff_toNat_lt]
    rw [List.foldl_append, List.foldl_cons, List.foldl_nil]
    generalize l.foldl _ (none, 0) = aged at holdest ⊢
    have hsnoc {P : Fin chMax → Prop} (hl : ∀ j ∈ l, P j) (hi : P i) : ∀ j ∈ l ++ [i], P j :=
      List.forall_mem_append.mpr ⟨hl, List.forall_mem_singleton.mpr hi⟩
    simp only [hch]
    cases holdest with
    | none hnone =>
      split_ifs with h
      · have hi : IsAged m b bestPrio i := haged.mpr ⟨h.1, h.2.1, h.2.2.1⟩
        refine .some i (by simp) hi (hsnoc ?_ fun _ => le_refl _)
        exact fun j hj hj' => absurd hj' (hnone j hj)
      · refine .none (hsnoc hnone fun hi => h ?_)
        obtain ⟨hused, hprio, hage⟩ := haged.mp hi
        exact ⟨hused, hprio, hage, Nat.lt_of_lt_of_le (by decide) hage⟩
    | some k hmem hk hmax =>
      split_ifs with h
      · have hi : IsAged m b bestPrio i := haged.mpr ⟨h.1, h.2.1, h.2.2.1⟩
        refine .some i (by simp) hi (hsnoc ?_ fun _ => le_refl _)
        exact fun j hj hj' => (hmax j hj hj').trans h.2.2.2.le
      · refine .some k (by simp [hmem]) hk (hsnoc hmax fun hi => ?_)
        obtain ⟨hused, hprio, hage⟩ := haged.mp hi
        exact Nat.le_of_not_lt fun hlt => h ⟨hused, hprio, hage, hlt⟩

/-! ### The round-robin loop -/

theorem mem_turnOrder {m : ChannelManager} (b : ChUprotoBind) {i : Fin chMax} (hi : i.val < m.count) :
    i ∈ turnOrder m b := by
  have hstart : b.rrCursor % m.count < m.count := Nat.mod_lt _ (by omega)
  refine List.mem_map.mpr ⟨cycleOffset m.count (b.rrCursor % m.count) i,
    List.mem_range.mpr (cycleOffset_lt hstart hi), ?_⟩
  rw [add_cycleOffset_mod hstart hi]
  exact Fin.ext (Nat.mod_eq_of_lt i.isLt)

/-- The slot at a distance from the cursor, and its place in the order of turns. -/
theorem turn_val {m : ChannelManager} (b : ChUprotoBind) {off : ℕ} (hoff : off < m.count) :
    (Fin.ofNat chMax ((b.rrCursor % m.count + off) % m.count)).val < m.count ∧
      (b.queue m).rank (Fin.ofNat chMax ((b.rrCursor % m.count + off) % m.count)) = off := by
  have hcount : 0 < m.count := by omega
  have hlt : (b.rrCursor % m.count + off) % m.count < m.count := Nat.mod_lt _ hcount
  have hval : (Fin.ofNat chMax ((b.rrCursor % m.count + off) % m.count)).val =
      (b.rrCursor % m.count + off) % m.count := Nat.mod_eq_of_lt (Nat.lt_of_lt_of_le hlt m.count_le)
  refine ⟨by rw [hval]; exact hlt, ?_⟩
  simp only [ChUprotoBind.queue]
  rw [hval, if_pos hlt, cycleOffset_add_mod (Nat.mod_lt _ hcount) hoff]

theorem turnOrder_pairwise (m : ChannelManager) (b : ChUprotoBind) :
    (turnOrder m b).Pairwise fun i j => (b.queue m).rank i < (b.queue m).rank j := by
  rw [turnOrder, List.pairwise_map]
  apply List.pairwise_lt_range.imp_of_mem
  intro i j hi hj hlt
  rw [(turn_val b (List.mem_range.mp hi)).2, (turn_val b (List.mem_range.mp hj)).2]
  exact hlt

theorem lt_of_mem_turnOrder {m : ChannelManager} {b : ChUprotoBind} {i : Fin chMax}
    (hi : i ∈ turnOrder m b) : i.val < m.count := by
  obtain ⟨off, hoff, rfl⟩ := List.mem_map.mp hi
  exact (turn_val b (List.mem_range.mp hoff)).1

theorem isTurn_iff {m : ChannelManager} {i : Fin chMax} (hi : i.val < m.count) (prio : UInt8) :
    ((m.slots i).any fun ch => ch.priority = prio) = true ↔ m.prio i = prio.toNat := by
  obtain ⟨ch, hch⟩ := m.exists_slot hi
  rw [m.prio_eq hch, hch, UInt8.toNat_inj]
  simp

theorem findTurn_some {m : ChannelManager} {b : ChUprotoBind} {prio : UInt8} {w : Fin chMax}
    (h : findTurn m b prio = some w) : w.val < m.count ∧ (b.pending w).used ∧ m.prio w = prio.toNat ∧
      ∀ i, i.val < m.count → (b.pending i).used → m.prio i = prio.toNat → i ≠ w →
        (b.queue m).rank w < (b.queue m).rank i := by
  have hpairwise := turnOrder_pairwise m b
  have hmem := List.mem_of_find?_eq_some h
  obtain ⟨hw, before, after, hsplit, hbefore⟩ := List.find?_eq_some_iff_append.mp h
  have hlt := lt_of_mem_turnOrder hmem
  rw [decide_eq_true_iff, isTurn_iff hlt] at hw
  refine ⟨hlt, hw.1, hw.2, ?_⟩
  intro i hi hused hprio hne
  have hi' := mem_turnOrder b hi
  rw [hsplit] at hi' hpairwise
  rcases List.mem_append.mp hi' with hi' | hi'
  · have hskip := hbefore i hi'
    rw [Bool.not_eq_true', decide_eq_false_iff_not, isTurn_iff hi] at hskip
    exact absurd ⟨hused, hprio⟩ hskip
  · rcases List.mem_cons.mp hi' with rfl | hi'
    · exact absurd rfl hne
    · exact List.rel_of_pairwise_cons (List.pairwise_append.mp hpairwise).2.1 hi'

/-- The loop meets every registered slot, so it does not run to its end when one qualifies. -/
theorem findTurn_ne_none {m : ChannelManager} {b : ChUprotoBind} {prio : UInt8} {i : Fin chMax}
    (hi : i.val < m.count) (hused : (b.pending i).used) (hprio : m.prio i = prio.toNat) :
    findTurn m b prio ≠ none := by
  intro hnone
  have hskip := List.find?_eq_none.mp hnone i (mem_turnOrder b hi)
  rw [decide_eq_true_iff, isTurn_iff hi] at hskip
  exact hskip ⟨hused, hprio⟩

/-! ### The choice -/

inductive NextReady (m : ChannelManager) (b : ChUprotoBind) : Option (Fin chMax) × ChUprotoBind → Prop
  | idle (hidle : ∀ i, ¬ (b.pending i).used) : NextReady m b (none, b)
  | ready (w : Fin chMax) (rrCursor : ℕ) (hw : (b.pending w).used)
      (hchoose : Chooses m.prio chArbFairAge (b.queue m) w ({ b with rrCursor := rrCursor }.queue m).rank) :
      NextReady m b (some w, { b with rrCursor := rrCursor })

theorem cursor_rotates {m : ChannelManager} (b : ChUprotoBind) {w : Fin chMax} (hw : w.val < m.count) :
    Rotates (b.queue m).rank w ({ b with rrCursor := w.val + 1 }.queue m).rank := by
  have hstart : b.rrCursor % m.count < m.count := Nat.mod_lt _ (by omega)
  have hreg {i j : Fin chMax} (h : (b.queue m).rank i < (b.queue m).rank j) : j.val < m.count := by
    by_contra hj
    simp [ChUprotoBind.queue, hj] at h
  intro i hwi
  have hi := hreg hwi
  simp only [ChUprotoBind.queue] at hwi ⊢
  rw [if_pos hw, if_pos hi] at hwi
  refine ⟨?_, fun j hij => ?_⟩
  · rw [if_pos hi, if_pos hw]
    exact (cycleOffset_next hstart hw hi hi hwi).1
  · have hj := hreg hij
    rw [if_pos hi, if_pos hj] at hij ⊢
    exact (cycleOffset_next hstart hw hi hj hwi).2 hij

theorem findNextReadyIndex_nextReady {m : ChannelManager} {b : ChUprotoBind} (hm : b.mgr = some m)
    (hused : ∀ i, (b.pending i).used → i.val < m.count) :
    NextReady m (bumpAges m b) (findNextReadyIndex b) := by
  have hused' : ∀ i, ((bumpAges m b).pending i).used → i.val < m.count := by
    intro i hi
    apply hused i
    unfold bumpAges at hi
    dsimp only at hi
    split_ifs at hi <;> exact hi
  unfold findNextReadyIndex
  rw [hm]
  dsimp only
  generalize bumpAges m b = b at hused'
  have hbest := findBest_isBest m b
  generalize findBest m b = best at hbest ⊢
  cases hbest with
  | none hidle => exact .idle fun i hi => hidle i (m.mem_indices.mpr (hused' i hi)) hi
  | some best ch hmem hbestUsed hch htop =>
    have htop' : ∀ i, (b.pending i).used → m.prio i ≤ ch.priority.toNat := fun i hi =>
      htop i (m.mem_indices.mpr (hused' i hi)) hi
    have holdest := findAged_isOldest m b ch.priority
    dsimp only
    generalize findAged m b ch.priority = aged at holdest ⊢
    cases holdest with
    | some w hw haged hmax =>
      obtain ⟨hwused, hlow, hage⟩ := haged
      rw [← m.prio_eq hch] at hlow htop'
      refine .ready w b.rrCursor hwused (.aged best htop' hlow hage ?_)
      intro i hi hprio hfair
      rw [m.prio_eq hch] at hprio
      exact hmax i (m.mem_indices.mpr (hused' i hi)) ⟨hi, hprio, hfair⟩
    | none hnone =>
      dsimp only
      cases hturn : findTurn m b ch.priority with
      | none => exact absurd hturn (findTurn_ne_none (hused' best hbestUsed) hbestUsed (m.prio_eq hch))
      | some w =>
        obtain ⟨hwlt, hwused, hwprio, hfirst⟩ := findTurn_some hturn
        refine .ready w (w.val + 1) hwused (.turn ?_ ?_ ?_ (cursor_rotates b hwlt))
        · intro i hi
          rw [hwprio]
          exact htop' i hi
        · intro i hi hprio
          refine Nat.lt_of_not_le fun hfair => hnone i (m.mem_indices.mpr (hused' i hi)) ⟨hi, ?_, hfair⟩
          rwa [← hwprio]
        · intro i hi hprio hne
          exact hfirst i (hused' i hi) hi (hprio.trans hwprio) hne

/-! ### What a step does -/

/-- The slot that `ch_uproto_queue_notify` finds. -/
def ChannelManager.slotOf (m : ChannelManager) (chId : UInt8) : Option (Fin chMax) :=
  (List.finRange chMax).find? fun i => (m.slots i).any fun ch => ch.id = chId

theorem ChannelManager.slotOf_some {m : ChannelManager} {chId : UInt8} {i : Fin chMax}
    (h : m.slotOf chId = some i) : ∃ ch, m.slots i = some ch ∧ ch.id = chId := by
  have hany := List.find?_some h
  cases hch : m.slots i with
  | none => simp [hch] at hany
  | some ch => exact ⟨ch, rfl, by simpa [hch] using hany⟩

theorem ChannelManager.slotOf_lt {m : ChannelManager} {chId : UInt8} {i : Fin chMax}
    (h : m.slotOf chId = some i) : i.val < m.count := by
  obtain ⟨ch, hch, -⟩ := m.slotOf_some h
  exact (m.registered i).mp (by rw [hch]; rfl)

def PendingNotify.replaced (old : PendingNotify) (chId : UInt8) (sid : UInt16) (flags : UInt8)
    (payload : Option (List UInt8)) (len : UInt16) : PendingNotify :=
  { used := true, chId := chId, sid := sid, flags := flags, len := len
    payload := match payload with
      | some p => p.take len.toNat ++ old.payload.drop len.toNat
      | none => old.payload
    age := if old.used then old.age else 0 }

inductive Queued (m : ChannelManager) (b : ChUprotoBind) (chId : UInt8) (sid : UInt16) (flags : UInt8)
    (payload : Option (List UInt8)) (len : UInt16) : Bool × ChUprotoBind → Prop
  | refused : Queued m b chId sid flags payload len (false, b)
  | accepted (i : Fin chMax) (hslot : m.slotOf chId = some i)
      (hlen : len.toNat ≤ commChannelPendingPayloadSize) :
      Queued m b chId sid flags payload len
        (true, b.setPending i ((b.pending i).replaced chId sid flags payload len))

theorem chUprotoQueueNotify_queued {m : ChannelManager} {b : ChUprotoBind} (hm : b.mgr = some m)
    (chId : UInt8) (sid : UInt16) (flags : UInt8) (payload : Option (List UInt8)) (len : UInt16) :
    Queued m b chId sid flags payload len (chUprotoQueueNotify b chId sid flags payload len) := by
  unfold chUprotoQueueNotify
  rw [hm]
  dsimp only
  cases hslot : (List.finRange chMax).find? fun i => (m.slots i).any fun ch => ch.id = chId with
  | none => exact .refused
  | some i =>
    dsimp only
    by_cases hlen : len.toNat > commChannelPendingPayloadSize
    · rw [if_pos hlen]
      exact .refused
    · rw [if_neg hlen]
      exact .accepted i hslot (Nat.le_of_not_lt hlen)

def ChUprotoBind.drawSeq (b : ChUprotoBind) (chId : UInt8) : ChUprotoBind :=
  let counter := Fin.ofNat chMax chId.toNat
  { b with seqCounters := Function.update b.seqCounters counter (b.seqCounters counter + 1) }

/-- The header that the item of slot `w` is sent with. -/
def ChUprotoBind.nextHdr (b : ChUprotoBind) (w : Fin chMax) : MuxHdr :=
  let item := b.pending w
  { sof := muxSof, ver := muxVer, channel := item.chId, flags := item.flags, len := item.len
    sid := item.sid, seq := b.seqCounters (Fin.ofNat chMax item.chId.toNat) + 1, rsv := 0 }

/-- The binding when the item of slot `w` is about to be sent. -/
def ChUprotoBind.chosen (m : ChannelManager) (b : ChUprotoBind) (w : Fin chMax) (rrCursor : ℕ) :
    ChUprotoBind :=
  { bumpAges m b with rrCursor := rrCursor }.drawSeq ((bumpAges m b).pending w).chId

variable {σ : Type}

inductive Ticked (send : SendNotify σ) (m : ChannelManager) (x : MuxLink σ) : MuxLink σ → Prop
  | off (hctx : ¬ x.bind.ctx) : Ticked send m x x
  | idle (hctx : x.bind.ctx) (hidle : ∀ i, ¬ ((bumpAges m x.bind).pending i).used) :
      Ticked send m x { x with bind := bumpAges m x.bind }
  | dropped (w : Fin chMax) (rrCursor : ℕ) (hctx : x.bind.ctx)
      (hnext : findNextReadyIndex x.bind = (some w, { bumpAges m x.bind with rrCursor := rrCursor }))
      (hw : ((bumpAges m x.bind).pending w).used)
      (hchoose : Chooses m.prio chArbFairAge ((bumpAges m x.bind).queue m) w
        ({ bumpAges m x.bind with rrCursor := rrCursor }.queue m).rank)
      (hbuf : muxEncode commMuxTxBufferSize ((bumpAges m x.bind).nextHdr w)
        ((bumpAges m x.bind).pending w).payload = none) :
      Ticked send m x { x with bind := (x.bind.chosen m w rrCursor).clearPending w }
  | sent (w : Fin chMax) (rrCursor : ℕ) (hctx : x.bind.ctx)
      (hnext : findNextReadyIndex x.bind = (some w, { bumpAges m x.bind with rrCursor := rrCursor }))
      (hw : ((bumpAges m x.bind).pending w).used)
      (hchoose : Chooses m.prio chArbFairAge ((bumpAges m x.bind).queue m) w
        ({ bumpAges m x.bind with rrCursor := rrCursor }.queue m).rank)
      (buf : List UInt8) (hbuf : muxEncode commMuxTxBufferSize ((bumpAges m x.bind).nextHdr w)
        ((bumpAges m x.bind).pending w).payload = some buf) (err : UprotoError) (transport : σ)
      (hsend : send x.bind.msgType buf x.transport = (err, transport)) :
      Ticked send m x
        { bind := if err = .ok then (x.bind.chosen m w rrCursor).clearPending w
            else x.bind.chosen m w rrCursor
          transport := transport
          log := .notify w ((bumpAges m x.bind).nextHdr w) buf err :: x.log }

theorem chUprotoArbiterTick_ticked {m : ChannelManager} (send : SendNotify σ) {x : MuxLink σ}
    (hm : x.bind.mgr = some m) (hused : ∀ i, (x.bind.pending i).used → i.val < m.count) :
    Ticked send m x (chUprotoArbiterTick send x) := by
  unfold chUprotoArbiterTick
  have hmgr : x.bind.mgr.isNone = false := by rw [hm]; rfl
  by_cases hctx : x.bind.ctx
  · rw [if_neg (by simp [hctx, hmgr])]
    have hnext := findNextReadyIndex_nextReady hm hused
    generalize hresult : findNextReadyIndex x.bind = next at hnext ⊢
    cases hnext with
    | idle hidle => exact .idle hctx hidle
    | ready w rrCursor hw hchoose =>
      dsimp only
      cases hbuf : muxEncode commMuxTxBufferSize _ _ with
      | none => exact .dropped w rrCursor hctx hresult hw hchoose hbuf
      | some buf => exact .sent w rrCursor hctx hresult hw hchoose buf hbuf _ _ rfl
  · rw [if_pos (.inl hctx)]
    exact .off hctx

/-! ### Runs -/

/-- The pending notifications are those of registered channels and wait fairly. -/
structure ChUprotoBind.Fair (b : ChUprotoBind) (m : ChannelManager) : Prop where
  mgr : b.mgr = some m
  used_lt : ∀ i, (b.pending i).used → i.val < m.count
  fair : Aging.Fair m.prio chArbFairAge (b.queue m)

theorem limit_eq : limit (Fin chMax) chArbFairAge = 24 := rfl

theorem chUprotoBind_fair (ctx : Bool) (msgType : UInt8) (m : ChannelManager) :
    (chUprotoBind ctx msgType (some m)).Fair m where
  mgr := rfl
  used_lt _ hi := absurd hi Bool.false_ne_true
  fair := .empty (fun _ => Bool.false_ne_true) fun _ => rfl

namespace ChUprotoBind.Fair

variable {m : ChannelManager} {b : ChUprotoBind}

theorem age_le (h : b.Fair m) (i : Fin chMax) : (b.pending i).age ≤ 24 := by
  by_cases hi : (b.pending i).used
  · exact h.fair.age_le_limit i hi
  · rw [show (b.pending i).age = 0 from h.fair.rest i hi]
    exact Nat.zero_le _

theorem bumpAges_pending (h : b.Fair m) (i : Fin chMax) : (bumpAges m b).pending i =
    { b.pending i with age := if (b.pending i).used then (b.pending i).age + 1 else (b.pending i).age } := by
  have hage := h.age_le i
  unfold bumpAges
  dsimp only
  by_cases hi : (b.pending i).used
  · rw [if_pos ⟨h.used_lt i hi, hi, by omega⟩, if_pos hi]
  · rw [if_neg fun hbump => hi hbump.2.1, if_neg hi]

theorem queue_bumpAges (h : b.Fair m) : (bumpAges m b).queue m = (b.queue m).older := by
  unfold ChUprotoBind.queue Queue.older
  simp only [h.bumpAges_pending]
  rfl

theorem queue_idle (h : b.Fair m) (hidle : ∀ i, ¬ ((bumpAges m b).pending i).used) :
    (bumpAges m b).queue m = b.queue m := by
  rw [h.queue_bumpAges]
  apply Queue.older_of_idle
  intro i hi
  apply hidle i
  rw [h.bumpAges_pending]
  exact hi

theorem queue_join {i : Fin chMax} {item : PendingNotify} (hused : item.used)
    (hage : item.age = (b.pending i).age) : (b.setPending i item).queue m = (b.queue m).join i := by
  have hpending (j : Fin chMax) : (b.setPending i item).pending j =
      if j = i then item else b.pending j := Function.update_apply _ _ _ _
  refine Queue.ext (funext fun j => ?_) (funext fun j => ?_) rfl
  · simp only [queue, Queue.join, hpending, Function.update_apply]
    split_ifs
    · exact hused
    · rfl
  · simp only [queue, Queue.join, hpending]
    split_ifs with hj
    · rw [hage, hj]
    · rfl

theorem queue_replaced (h : b.Fair m) (i : Fin chMax) (chId : UInt8) (sid : UInt16) (flags : UInt8)
    (payload : Option (List UInt8)) (len : UInt16) :
    (b.setPending i ((b.pending i).replaced chId sid flags payload len)).queue m = (b.queue m).join i := by
  have hage : (if (b.pending i).used then (b.pending i).age else 0) = (b.pending i).age := by
    split_ifs with hused
    · rfl
    · exact (h.fair.rest i hused).symm
  exact queue_join rfl hage

theorem queueNotify (h : b.Fair m) (chId : UInt8) (sid : UInt16) (flags : UInt8)
    (payload : Option (List UInt8)) (len : UInt16) :
    (chUprotoQueueNotify b chId sid flags payload len).2.Fair m := by
  have hqueued := chUprotoQueueNotify_queued h.mgr chId sid flags payload len
  generalize chUprotoQueueNotify b chId sid flags payload len = result at hqueued ⊢
  cases hqueued with
  | refused => exact h
  | accepted i hslot hlen =>
    refine ⟨h.mgr, fun j hj => ?_, ?_⟩
    · by_cases hji : j = i
      · rw [hji]
        exact m.slotOf_lt hslot
      · apply h.used_lt j
        rwa [b.setPending_of_ne hji] at hj
    · dsimp only
      rw [h.queue_replaced]
      exact h.fair.join i

theorem queue_serve {w : Fin chMax} : (b.clearPending w).queue m = (b.queue m).serve w (b.queue m).rank := by
  have hpending (j : Fin chMax) : (b.clearPending w).pending j =
      if j = w then { b.pending w with used := false, age := 0 } else b.pending j :=
    Function.update_apply _ _ _ _
  refine Queue.ext (funext fun j => ?_) (funext fun j => ?_) rfl
  · simp only [queue, Queue.serve, hpending, Function.update_apply]
    split_ifs <;> rfl
  · simp only [queue, Queue.serve, hpending, Function.update_apply]
    split_ifs <;> rfl

theorem served (h : b.Fair m) {w : Fin chMax} {rrCursor : ℕ}
    (hchoose : Chooses m.prio chArbFairAge ((bumpAges m b).queue m) w
      ({ bumpAges m b with rrCursor := rrCursor }.queue m).rank) (seqCounters : Fin chMax → UInt32) :
    ({ bumpAges m b with rrCursor := rrCursor, seqCounters := seqCounters }.clearPending w).Fair m := by
  rw [h.queue_bumpAges] at hchoose
  refine ⟨h.mgr, fun i hi => ?_, ?_⟩
  · by_cases hiw : i = w
    · rw [hiw, clearPending_self] at hi
      cases hi
    · apply h.used_lt i
      rw [clearPending_of_ne _ hiw] at hi
      rwa [h.bumpAges_pending] at hi
  · rw [queue_serve]
    have hserve := h.fair.serve hchoose (by rw [limit_eq]; decide)
    rw [← h.queue_bumpAges] at hserve
    exact hserve

theorem arbiterTick {send : SendNotify σ} {x : MuxLink σ} (h : x.bind.Fair m)
    (hsent : ∀ slot hdr buf err, .notify slot hdr buf err ∈ (chUprotoArbiterTick send x).log → err = .ok) :
    (chUprotoArbiterTick send x).bind.Fair m := by
  have hticked := chUprotoArbiterTick_ticked send h.mgr h.used_lt
  generalize chUprotoArbiterTick send x = y at hticked hsent ⊢
  cases hticked with
  | off hctx => exact h
  | idle hctx hidle =>
    refine ⟨h.mgr, fun i hi => absurd hi (hidle i), ?_⟩
    rw [h.queue_idle hidle]
    exact h.fair
  | dropped w rrCursor hctx hnext hw hchoose hbuf => exact h.served hchoose _
  | sent w rrCursor hctx hnext hw hchoose buf hbuf err transport hsend =>
    dsimp only
    rw [if_pos (hsent _ _ _ _ List.mem_cons_self)]
    exact h.served hchoose _

end ChUprotoBind.Fair

inductive MuxInput.Logs : MuxInput → MuxObs → Prop
  | accepted (chId : UInt8) (sid : UInt16) (flags : UInt8) (payload : Option (List UInt8)) (len : UInt16) :
      Logs (.queueNotify chId sid flags payload len) (.queued chId sid flags payload len)
  | sent (slot : Fin chMax) (hdr : MuxHdr) (buf : List UInt8) (err : UprotoError) :
      Logs .arbiterTick (.notify slot hdr buf err)

theorem MuxLink.step_logs (send : SendNotify σ) (x : MuxLink σ) (input : MuxInput) :
    (x.step send input).log = x.log ∨ ∃ o, input.Logs o ∧ (x.step send input).log = o :: x.log := by
  cases input with
  | queueNotify chId sid flags payload len =>
    unfold step
    dsimp only
    split
    · exact .inr ⟨_, .accepted chId sid flags payload len, rfl⟩
    · exact .inl rfl
  | arbiterTick =>
    unfold step chUprotoArbiterTick
    dsimp only
    split_ifs
    · exact .inl rfl
    split
    · exact .inl rfl
    · split
      · exact .inl rfl
      · exact .inr ⟨_, .sent _ _ _ _, rfl⟩

theorem MuxLink.step_log (send : SendNotify σ) (x : MuxLink σ) (input : MuxInput) :
    x.log <:+ (x.step send input).log := by
  rcases x.step_logs send input with heq | ⟨o, -, heq⟩
  · rw [heq]
  · rw [heq]
    exact List.suffix_cons o x.log

theorem MuxLink.step_fair {send : SendNotify σ} {x : MuxLink σ} {m : ChannelManager} (h : x.bind.Fair m)
    (input : MuxInput)
    (hsent : ∀ slot hdr buf err, .notify slot hdr buf err ∈ (x.step send input).log → err = .ok) :
    (x.step send input).bind.Fair m := by
  cases input with
  | queueNotify chId sid flags payload len =>
    have hqueue := h.queueNotify chId sid flags payload len
    unfold MuxLink.step
    dsimp only
    generalize chUprotoQueueNotify _ chId sid flags payload len = result at hqueue ⊢
    obtain ⟨accepted, b⟩ := result
    cases accepted <;> exact hqueue
  | arbiterTick => exact h.arbiterTick hsent

theorem MuxLink.run_log (send : SendNotify σ) (x : MuxLink σ) (inputs : List MuxInput) :
    x.log <:+ (x.run send inputs).log := by
  induction inputs generalizing x with
  | nil => exact List.suffix_rfl
  | cons input inputs ih => exact (x.step_log send input).trans (ih _)

theorem MuxLink.run_fair {send : SendNotify σ} {x : MuxLink σ} {m : ChannelManager}
    (h : x.bind.Fair m) (inputs : List MuxInput)
    (hsent : ∀ slot hdr buf err, .notify slot hdr buf err ∈ (x.run send inputs).log → err = .ok) :
    (x.run send inputs).bind.Fair m := by
  induction inputs generalizing x with
  | nil => exact h
  | cons input inputs ih =>
    refine ih (step_fair h input ?_) hsent
    intro slot hdr buf err hmem
    exact hsent slot hdr buf err (((x.step send input).run_log send inputs).subset hmem)

/-- No pending notification starves. In every run whose sends succeed, no age exceeds 64,
    also inside a tick, and the arbiter always finds a turn when no item is aged. -/
theorem chUprotoArbiterTick_age_le {σ : Type} (send : SendNotify σ) (m : ChannelManager) (ctx : Bool)
    (msgType : UInt8) (transport : σ) (inputs : List MuxInput)
    (hsent : ∀ slot hdr buf err, .notify slot hdr buf err ∈
      (MuxLink.run send ⟨chUprotoBind ctx msgType (some m), transport, []⟩ inputs).log → err = .ok) :
    let b := (MuxLink.run send ⟨chUprotoBind ctx msgType (some m), transport, []⟩ inputs).bind
    (∀ i, (b.pending i).age ≤ 64 ∧ ((bumpAges m b).pending i).age ≤ 64) ∧
      ∀ best bestPrio, findBest m (bumpAges m b) = some (best, bestPrio) →
        findTurn m (bumpAges m b) bestPrio ≠ none := by
  intro b
  have hfair : b.Fair m := MuxLink.run_fair (chUprotoBind_fair ctx msgType m) inputs hsent
  refine ⟨fun i => ?_, ?_⟩
  · have hage := hfair.age_le i
    rw [hfair.bumpAges_pending]
    dsimp only
    split_ifs <;> omega
  · intro best bestPrio hbest
    have hisBest := findBest_isBest m (bumpAges m b)
    rw [hbest] at hisBest
    cases hisBest with
    | some _ ch hmem hused hch htop =>
      exact findTurn_ne_none (m.mem_indices.mp hmem) hused (m.prio_eq hch)

def MuxObs.sentOk : MuxObs → Bool
  | .notify _ _ _ err => err = .ok
  | _ => true

def twoChannels : ChannelManager :=
  ((chmgrRegister chmgrInit ⟨1, 5⟩).bind fun m => chmgrRegister m ⟨2, 3⟩).getD chmgrInit

def twoChannelsInputs : List MuxInput :=
  [.queueNotify 1 0 0 (some [7]) 1, .queueNotify 2 0 0 (some [8, 9]) 2, .arbiterTick,
    .queueNotify 1 0 0 (some [7]) 1, .arbiterTick]

theorem chUprotoArbiterTick_age_le_two :
    let x := MuxLink.run (uprotoNotify quietEnv)
      ⟨chUprotoBind true 0x25 (some twoChannels), ⟨uprotoInit true true none, 0, []⟩, []⟩ twoChannelsInputs
    (x.bind.pending 1).used ∧ (x.bind.pending 1).age = 2 ∧ (x.bind.pending 1).age ≤ 64 := by
  have hall : ((MuxLink.run (uprotoNotify quietEnv)
      ⟨chUprotoBind true 0x25 (some twoChannels), ⟨uprotoInit true true none, 0, []⟩, []⟩
      twoChannelsInputs).log.all MuxObs.sentOk) = true := by decide +kernel
  refine ⟨by decide +kernel, by decide +kernel,
    ((chUprotoArbiterTick_age_le _ twoChannels true 0x25 _ twoChannelsInputs ?_).1 1).1⟩
  intro slot hdr buf err hmem
  exact of_decide_eq_true (List.all_eq_true.mp hall _ hmem)

end SpVision
