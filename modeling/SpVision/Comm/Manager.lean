import SpVision.Comm.Delivery

set_option autoImplicit false

/-!
# The channel manager as a list of channels

`comm.c` looks channels up by their id and hands each received MUX frame to the channel
it is for. What a channel's hooks do is a parameter; they act on a state of their own.
-/
namespace SpVision

variable {σ : Type}

/-! ### Lookup and dispatch -/

def chmgrFind (m : ChannelManager) (id : UInt8) : Option (Fin chMax) :=
  m.indices.find? fun i => (m.slots i).any fun ch => ch.id = id

/-- The hooks that are set, for the channel in each slot; a hook's `user` is part of it. -/
structure ChannelHooks (σ : Type) where
  onRx : Fin chMax → Option (List UInt8 → σ → σ)
  onTick : Fin chMax → Option (σ → σ)

def chmgrDispatchRx (hooks : ChannelHooks σ) (m : ChannelManager) (id : UInt8) (payload : List UInt8) (s : σ) : σ :=
  match chmgrFind m id with
  | none => s
  | some i =>
    match hooks.onRx i with
    | none => s
    | some onRx => onRx payload s

def chmgrTick (hooks : ChannelHooks σ) (m : ChannelManager) (s : σ) : σ :=
  m.indices.foldl (fun s i => match hooks.onTick i with
    | none => s
    | some onTick => onTick s) s

/-- `mgr` is that of the binding the handler was registered with. -/
def onMuxRx (hooks : ChannelHooks σ) (mgr : Option ChannelManager) (data : List UInt8) (s : σ) : σ :=
  match mgr with
  | none => s
  | some m =>
    match muxDecode data data.length with
    | none => s
    | some (hdr, pl) => chmgrDispatchRx hooks m hdr.channel pl s

/-! ### The list behind the slots -/

namespace ChannelManager

variable (m : ChannelManager)

/-- The registered channels in the order of their registration. -/
def channels : List Channel :=
  List.ofFn fun k : Fin m.count =>
    (m.slots ⟨k, k.isLt.trans_le m.count_le⟩).get ((m.registered _).mpr k.isLt)

@[simp] theorem channels_length : m.channels.length = m.count := List.length_ofFn

theorem channels_getElem? (i : Fin chMax) : m.channels[i.val]? = m.slots i := by
  rw [channels, List.getElem?_ofFn]
  by_cases hi : i.val < m.count
  · rw [dif_pos hi, Option.some_get]
  · rw [dif_neg hi]
    have hnone := mt (m.registered i).mp hi
    rw [Option.not_isSome_iff_eq_none] at hnone
    exact hnone.symm

theorem ext_channels {l : List Channel} (hlen : l.length ≤ chMax) (h : ∀ i : Fin chMax, m.slots i = l[i.val]?) :
    m.channels = l := by
  apply List.ext_getElem?
  intro k
  by_cases hk : k < chMax
  · exact (m.channels_getElem? ⟨k, hk⟩).trans (h ⟨k, hk⟩)
  · have hcount := m.count_le
    rw [List.getElem?_eq_none (by rw [channels_length]; omega), List.getElem?_eq_none (by omega)]

/-- A lookup finds the first channel registered with the id. -/
theorem find_spec (id : UInt8) : (chmgrFind m id).map Fin.val = m.channels.findIdx? fun ch => ch.id = id := by
  cases hfind : chmgrFind m id with
  | none =>
    rw [Option.map_none]
    refine (List.findIdx?_eq_none_iff.mpr fun ch hch => ?_).symm
    obtain ⟨k, hk, rfl⟩ := List.mem_iff_getElem.mp hch
    rw [channels_length] at hk
    have hslot := m.channels_getElem? ⟨k, hk.trans_le m.count_le⟩
    have hskip := List.find?_eq_none.mp hfind ⟨k, hk.trans_le m.count_le⟩ (m.mem_indices.mpr hk)
    rw [← hslot, List.getElem?_eq_getElem (by rw [channels_length]; exact hk)] at hskip
    simpa using hskip
  | some i =>
    rw [Option.map_some]
    obtain ⟨hi, before, after, hsplit, hbefore⟩ := List.find?_eq_some_iff_append.mp hfind
    have hlt := m.mem_indices.mp (List.mem_of_find?_eq_some hfind)
    have hlen : i.val < m.channels.length := by rw [channels_length]; exact hlt
    have hslot := m.channels_getElem? i
    rw [List.getElem?_eq_getElem hlen] at hslot
    refine (List.findIdx?_eq_some_iff_getElem.mpr ⟨hlen, ?_, ?_⟩).symm
    · rw [← hslot] at hi
      simpa using hi
    · intro k hk
      have hk' : (⟨k, hk.trans i.isLt⟩ : Fin chMax) ∈ m.indices := m.mem_indices.mpr (hk.trans hlt)
      rw [hsplit] at hk'
      have hsorted : m.indices.Pairwise (· < ·) := (List.pairwise_lt_finRange chMax).filter _
      rw [hsplit] at hsorted
      have hmem : (⟨k, hk.trans i.isLt⟩ : Fin chMax) ∈ before := by
        rcases List.mem_append.mp hk' with hmem | hmem
        · exact hmem
        · rcases List.mem_cons.mp hmem with heq | hmem
          · exact absurd (congrArg Fin.val heq) hk.ne
          · have hlater := List.rel_of_pairwise_cons (List.pairwise_append.mp hsorted).2.1 hmem
            exact absurd (Fin.lt_def.mp hlater) (Nat.lt_asymm hk)
      have hskip := hbefore _ hmem
      have hkslot := m.channels_getElem? ⟨k, hk.trans i.isLt⟩
      rw [List.getElem?_eq_getElem (hk.trans hlen)] at hkslot
      rw [← hkslot] at hskip
      simpa using hskip

end ChannelManager

/-! ### Registration -/

theorem chmgrRegister_channels {m m' : ChannelManager} {ch : Channel} (h : chmgrRegister m ch = some m') :
    m'.channels = m.channels ++ [ch] := by
  unfold chmgrRegister at h
  split_ifs at h with hcount
  cases h
  apply ChannelManager.ext_channels
  · simp only [List.length_append, ChannelManager.channels_length, List.length_singleton]
    omega
  · intro i
    by_cases hi : i = ⟨m.count, hcount⟩
    · subst hi
      dsimp only
      rw [Function.update_self, List.getElem?_append_right (by simp)]
      simp
    · have hne : i.val ≠ m.count := fun heq => hi (Fin.ext heq)
      dsimp only
      rw [Function.update_of_ne hi, ← m.channels_getElem?]
      by_cases hlt : i.val < m.count
      · rw [List.getElem?_append_left (by rw [m.channels_length]; exact hlt)]
      · have hlen := m.channels_length
        rw [List.getElem?_eq_none (by omega), List.getElem?_eq_none]
        rw [List.length_append, List.length_singleton]
        omega

theorem chmgrRegister_eq_none_iff (m : ChannelManager) (ch : Channel) :
    chmgrRegister m ch = none ↔ m.channels.length = chMax := by
  have hcount := m.count_le
  unfold chmgrRegister
  split_ifs with h
  · simp only [ChannelManager.channels_length, false_iff]
    omega
  · simp only [ChannelManager.channels_length, true_iff]
    omega

/-- The channels of a start-up sequence; `chmgr_register` refuses those beyond the last slot. -/
def registerAll (l : List Channel) : ChannelManager :=
  l.foldl (fun m ch => (chmgrRegister m ch).getD m) chmgrInit

theorem registerAll_channels (l : List Channel) : (registerAll l).channels = l.take chMax := by
  induction l using List.reverseRecOn with
  | nil => rfl
  | append_singleton l ch ih =>
    have hlen := congrArg List.length ih
    rw [List.length_take] at hlen
    unfold registerAll at ih hlen ⊢
    rw [List.foldl_append, List.foldl_cons, List.foldl_nil]
    generalize l.foldl _ chmgrInit = m at ih hlen ⊢
    cases hregister : chmgrRegister m ch with
    | none =>
      have hfull := (chmgrRegister_eq_none_iff m ch).mp hregister
      rw [Option.getD_none, ih, List.take_append_of_le_length (by omega)]
    | some m' =>
      have hroom : m.channels.length ≠ chMax := fun hfull => by
        rw [(chmgrRegister_eq_none_iff m ch).mpr hfull] at hregister
        cases hregister
      rw [Option.getD_some, chmgrRegister_channels hregister, ih, List.take_append]
      rw [List.take_of_length_le (l := [ch]) (by rw [List.length_singleton]; omega)]

/-! ### What a received frame does -/

theorem ChannelManager.indices_eq (m : ChannelManager) :
    m.indices = (List.range m.count).map (Fin.ofNat chMax) := by
  have hcount := m.count_le
  unfold indices
  generalize m.count = n at hcount
  interval_cases n <;> decide

theorem onMuxRx_encoded (hooks : ChannelHooks σ) (m : ChannelManager) {outCap : ℕ} {hdr : MuxHdr}
    {payload out : List UInt8} (hlen : payload.length = hdr.len.toNat)
    (hout : muxEncode outCap hdr payload = some out) (rest : List UInt8) (s : σ) :
    onMuxRx hooks (some m) (out ++ rest) s = chmgrDispatchRx hooks m hdr.channel payload s := by
  unfold onMuxRx
  dsimp only
  rw [muxDecode_encode hlen hout rest]

theorem chmgrDispatchRx_channels (hooks : ChannelHooks σ) (m : ChannelManager) (id : UInt8)
    (payload : List UInt8) (s : σ) : chmgrDispatchRx hooks m id payload s =
      ((m.channels.findIdx? fun ch => ch.id = id).bind fun k => hooks.onRx (Fin.ofNat chMax k)).elim s
        fun onRx => onRx payload s := by
  unfold chmgrDispatchRx
  rw [← m.find_spec id]
  cases chmgrFind m id with
  | none => rfl
  | some i =>
    rw [Option.map_some, Option.bind_some, show Fin.ofNat chMax i.val = i from
      Fin.ext (Nat.mod_eq_of_lt i.isLt)]
    dsimp only
    cases hooks.onRx i <;> rfl

theorem chmgrTick_channels (hooks : ChannelHooks σ) (m : ChannelManager) (s : σ) : chmgrTick hooks m s =
    (List.range m.channels.length).foldl
      (fun s k => (hooks.onTick (Fin.ofNat chMax k)).elim s fun onTick => onTick s) s := by
  rw [chmgrTick, m.indices_eq, List.foldl_map, m.channels_length]
  congr 1
  funext s k
  cases hooks.onTick (Fin.ofNat chMax k) <;> rfl

/-- The hook of the first channel among the first eight registered with the id gets the payload of an
    encoded frame, whatever follows the frame, and nothing but an encoded frame calls a hook. A tick runs
    the tick hooks in the order of registration. -/
theorem onMuxRx_registered (hooks : ChannelHooks σ) (l : List Channel) (s : σ) :
    (∀ outCap hdr payload out rest, payload.length = hdr.len.toNat →
      muxEncode outCap hdr payload = some out →
        onMuxRx hooks (some (registerAll l)) (out ++ rest) s =
          (((l.take chMax).findIdx? fun ch => ch.id = hdr.channel).bind fun k =>
            hooks.onRx (Fin.ofNat chMax k)).elim s fun onRx => onRx payload s) ∧
      (∀ data, onMuxRx hooks (some (registerAll l)) data s ≠ s → ∃ hdr payload out,
        payload.length = hdr.len.toNat ∧
          muxEncode (muxHdrSize + hdr.len.toNat + 2) hdr payload = some out ∧ out <+: data) ∧
      chmgrTick hooks (registerAll l) s =
        (List.range (min chMax l.length)).foldl
          (fun s k => (hooks.onTick (Fin.ofNat chMax k)).elim s fun onTick => onTick s) s := by
  refine ⟨?_, ?_, ?_⟩
  · intro outCap hdr payload out rest hlen hout
    rw [onMuxRx_encoded hooks _ hlen hout, chmgrDispatchRx_channels, registerAll_channels]
  · intro data hne
    unfold onMuxRx at hne
    dsimp only at hne
    cases hdecode : muxDecode data data.length with
    | none =>
      rw [hdecode] at hne
      exact absurd rfl hne
    | some decoded =>
      obtain ⟨hdr, payload⟩ := decoded
      obtain ⟨-, -, hlen, hencode⟩ := muxEncode_decode hdecode
      exact ⟨hdr, payload, _, hlen, hencode, List.take_prefix _ _⟩
  · rw [chmgrTick_channels, registerAll_channels, List.length_take]

end SpVision
