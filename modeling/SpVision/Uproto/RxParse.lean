import SpVision.Uproto.RxReader

set_option autoImplicit false

/-!
# What a byte stream means, independently of its chunks

`rxParse` reads a whole stream at once: it skips one byte at a time up to the
next magic, skips a magic whose length field is out of range, and otherwise
takes the block that the length field announces. The receive loop agrees with
it (`rxRead_resumes`) except where the loop clears a buffer whose last byte is
the first half of a magic.
-/
namespace SpVision
open Incremental

def rxParse : ℕ → List UInt8 → List RxSegment
  | offset, b =>
    if _h : b = [] then []
    else if ¬ StartsMagic b then .noise offset :: rxParse (offset + 1) b.tail
    else if b.length < 16 then []
    else if 256 < lenField b then .badLength offset :: rxParse (offset + 2) (b.drop 2)
    else if b.length < 18 + lenField b then []
    else .block offset (18 + lenField b) (uprotoDecodeFrame b (18 + lenField b)) ::
      rxParse (offset + (18 + lenField b)) (b.drop (18 + lenField b))
termination_by _ b => b.length
decreasing_by
  all_goals
    have hpos := List.length_pos_iff.mpr _h
    simp only [List.length_tail, List.length_drop]
    omega

def RxSegment.isNoise : RxSegment → Bool
  | .noise _ => true
  | _ => false

/-- The call ends by clearing the buffer, and the last byte thrown away is `AA`. -/
def LosesMagic0 (b : List UInt8) : Prop :=
  (rxRead 0 b).2 = [] ∧ ((rxRead 0 b).1.map RxSegment.isNoise).getLast? = some true ∧
    b.getLast? = some uprotoMagic0

instance (b : List UInt8) : Decidable (LosesMagic0 b) := inferInstanceAs (Decidable (_ ∧ _ ∧ _))

/-- No magic is cut in two by clearing the buffer between its bytes. -/
def KeepsMagic (b next : List UInt8) : Prop := LosesMagic0 b → next.head? ≠ some uprotoMagic1

theorem noises_isNoise (offset n : ℕ) :
    (noises offset n).map RxSegment.isNoise = List.replicate n true := by
  rw [noises, List.map_map]
  exact List.eq_replicate_iff.mpr ⟨by simp, by simp [RxSegment.isNoise]⟩

theorem rxRead_offset (offset offset' : ℕ) (b : List UInt8) :
    (rxRead offset b).1.map RxSegment.isNoise = (rxRead offset' b).1.map RxSegment.isNoise ∧
      (rxRead offset b).2 = (rxRead offset' b).2 := by
  unfold rxRead
  generalize b.length + 1 = fuel
  induction fuel generalizing offset offset' b with
  | zero => exact ⟨rfl, rfl⟩
  | succ fuel ih =>
    simp only [rxDrain]
    split_ifs with hlen
    · exact ⟨rfl, rfl⟩
    cases findMagic b with
    | none => simp [noises_isNoise]
    | some n =>
      dsimp only
      split_ifs with h16 hbad hwait
      · simp [noises_isNoise]
      · have h := ih (offset + n + 2) (offset' + n + 2) ((b.drop n).drop 2)
        simp only [List.map_append, List.map_cons, noises_isNoise, h.1, h.2, RxSegment.isNoise]
        exact ⟨trivial, trivial⟩
      · simp [noises_isNoise]
      · have h := ih (offset + n + (uprotoHeaderSize + lenField (b.drop n) + 2))
          (offset' + n + (uprotoHeaderSize + lenField (b.drop n) + 2))
          ((b.drop n).drop (uprotoHeaderSize + lenField (b.drop n) + 2))
        simp only [List.map_append, List.map_cons, noises_isNoise, h.1, h.2, RxSegment.isNoise]
        exact ⟨trivial, trivial⟩

theorem rxParse_nil (offset : ℕ) : rxParse offset [] = [] := by
  rw [rxParse, dif_pos rfl]

theorem rxParse_noise {offset n : ℕ} {b : List UInt8} (hn : n ≤ b.length)
    (hno : ∀ i < n, ¬ StartsMagic (b.drop i)) :
    rxParse offset b = noises offset n ++ rxParse (offset + n) (b.drop n) := by
  induction n generalizing offset b with
  | zero => rfl
  | succ n ih =>
    have hb : b ≠ [] := by rintro rfl; simp at hn
    have h0 : ¬ StartsMagic b := by simpa using hno 0 (by omega)
    rw [rxParse, dif_neg hb, if_pos h0, ih (b := b.tail)]
    · simp only [List.drop_tail]
      rw [Nat.add_assoc, Nat.add_comm 1 n]
      rfl
    · rw [List.length_tail]; omega
    · intro i hi
      rw [List.drop_tail]
      exact hno (i + 1) (by omega)

theorem rxParse_badLength {offset : ℕ} {b : List UInt8} (hm : StartsMagic b) (hlen : 16 ≤ b.length)
    (hbad : 256 < lenField b) :
    rxParse offset b = .badLength offset :: rxParse (offset + 2) (b.drop 2) := by
  have hb : b ≠ [] := by rintro rfl; simp at hlen
  rw [rxParse, dif_neg hb, if_neg (not_not.mpr hm), if_neg (by omega), if_pos hbad]

theorem rxParse_block {offset total : ℕ} {b : List UInt8} (hm : StartsMagic b)
    (hok : lenField b ≤ 256) (htotal : total = 18 + lenField b) (hlen : total ≤ b.length) :
    rxParse offset b =
      .block offset total (uprotoDecodeFrame b total) :: rxParse (offset + total) (b.drop total) := by
  subst htotal
  have hb : b ≠ [] := by rintro rfl; simp at hlen
  rw [rxParse, dif_neg hb, if_neg (not_not.mpr hm), if_neg (by omega), if_neg (by omega),
    if_neg (by omega)]

theorem rxParse_wait {offset : ℕ} {b : List UInt8} (hm : StartsMagic b)
    (hpart : b.length < 16 ∨ lenField b ≤ 256 ∧ b.length < 18 + lenField b) :
    rxParse offset b = [] := by
  have hb : b ≠ [] := by rintro rfl; exact absurd hm.two_le (by simp)
  rw [rxParse, dif_neg hb, if_neg (not_not.mpr hm)]
  rcases hpart with h16 | ⟨hok, hwait⟩
  · rw [if_pos h16]
  · split_ifs
    · rfl
    · omega
    · rfl

/-! ### The loop reads the stream -/

theorem startsMagic_append {b x : List UInt8} (h : 2 ≤ b.length) :
    StartsMagic (b ++ x) ↔ StartsMagic b := by
  rw [StartsMagic, StartsMagic, List.getD_append _ _ _ _ (by omega),
    List.getD_append _ _ _ _ (by omega)]

theorem lenField_append {b x : List UInt8} (h : 14 ≤ b.length) :
    lenField (b ++ x) = lenField b := by
  have htake := readU16Le_take_drop (b ++ x) b.length 12 (by omega)
  rw [List.take_left] at htake
  rw [lenField, ← htake, lenField]

theorem FirstMagic.noise_append {b : List UInt8} {n : ℕ} (hm : FirstMagic b n) (x : List UInt8) :
    ∀ i < n, ¬ StartsMagic ((b ++ x).drop i) := by
  intro i hi
  have hn := hm.here.two_le
  rw [List.length_drop] at hn
  rw [List.drop_append_of_le_length (by omega), startsMagic_append (by rw [List.length_drop]; omega)]
  exact hm.first i hi

theorem rxParse_firstMagic {offset n : ℕ} {b : List UInt8} (hm : FirstMagic b n) (x : List UInt8) :
    rxParse offset (b ++ x) = noises offset n ++ rxParse (offset + n) (b.drop n ++ x) := by
  have hn := hm.here.two_le
  rw [List.length_drop] at hn
  rw [rxParse_noise (by rw [List.length_append]; omega) (hm.noise_append x),
    List.drop_append_of_le_length (by omega)]

theorem rxParse_skip {offset n : ℕ} {b : List UInt8} (hm : FirstMagic b n) (hpart : n + 16 ≤ b.length)
    (hbad : 256 < lenField (b.drop n)) (x : List UInt8) :
    rxParse offset (b ++ x) = noises offset n ++
      .badLength (offset + n) :: rxParse (offset + n + 2) (b.drop (n + 2) ++ x) := by
  rw [rxParse_firstMagic hm x, rxParse_badLength ((startsMagic_append hm.here.two_le).mpr hm.here)
    (by rw [List.length_append, List.length_drop]; omega)
    (by rw [lenField_append (by rw [List.length_drop]; omega)]; exact hbad),
    List.drop_append_of_le_length hm.here.two_le, List.drop_drop]

theorem rxParse_frame {offset n total : ℕ} {b : List UInt8} (hm : FirstMagic b n)
    (hok : lenField (b.drop n) ≤ 256) (htotal : total = 18 + lenField (b.drop n))
    (hpart : n + total ≤ b.length) (x : List UInt8) :
    rxParse offset (b ++ x) = noises offset n ++
      .block (offset + n) total (uprotoDecodeFrame (b.drop n) total) ::
        rxParse (offset + n + total) (b.drop (n + total) ++ x) := by
  have hlen : total ≤ (b.drop n).length := by rw [List.length_drop]; omega
  have hfield : lenField (b.drop n ++ x) = lenField (b.drop n) := lenField_append (by omega)
  have hdec : uprotoDecodeFrame (b.drop n ++ x) total = uprotoDecodeFrame (b.drop n) total := by
    rw [← uprotoDecodeFrame_take, List.take_append_of_le_length hlen, uprotoDecodeFrame_take]
  rw [rxParse_firstMagic hm x,
    @rxParse_block _ total _ ((startsMagic_append hm.here.two_le).mpr hm.here)
      (by rw [hfield]; exact hok) (by rw [hfield]; exact htotal)
      (by rw [List.length_append]; omega), hdec,
    List.drop_append_of_le_length hlen, List.drop_drop]

/-- Without a magic in the buffer, all of it is noise, unless its last byte and the next
    one make up a magic. -/
theorem noMagic_append {b x : List UInt8} (hno : ∀ i, ¬ StartsMagic (b.drop i))
    (hjoin : ¬ (b.getLast? = some uprotoMagic0 ∧ x.head? = some uprotoMagic1)) :
    ∀ i < b.length, ¬ StartsMagic ((b ++ x).drop i) := by
  intro i hi hm
  by_cases hlast : i + 2 ≤ b.length
  · rw [List.drop_append_of_le_length (by omega),
      startsMagic_append (by rw [List.length_drop]; omega)] at hm
    exact hno i hm
  · obtain rfl : i = b.length - 1 := by omega
    rw [startsMagic_drop] at hm
    obtain ⟨h0, h1⟩ := hm
    apply hjoin
    constructor
    · rw [List.getD_append _ _ _ _ (by omega), List.getD_eq_getElem _ _ hi] at h0
      rw [List.getLast?_eq_getElem?, List.getElem?_eq_getElem hi, h0]
    · rw [List.getD_append_right _ _ _ _ (by omega)] at h1
      have hz : b.length - 1 + 1 - b.length = 0 := by omega
      rw [hz] at h1
      cases x with
      | nil => exact absurd h1 (by decide)
      | cons y ys => simpa using h1

theorem losesMagic0_iff (offset : ℕ) (b : List UInt8) :
    LosesMagic0 b ↔ (rxRead offset b).2 = [] ∧
      ((rxRead offset b).1.map RxSegment.isNoise).getLast? = some true ∧
        b.getLast? = some uprotoMagic0 := by
  rw [LosesMagic0, (rxRead_offset 0 offset b).1, (rxRead_offset 0 offset b).2]

theorem LosesMagic0.of_tail {b : List UInt8} {segs : List RxSegment} {offset offset' k : ℕ}
    (hk : rxRead offset b = (segs ++ (rxRead offset' (b.drop k)).1, (rxRead offset' (b.drop k)).2))
    (h : LosesMagic0 (b.drop k)) : LosesMagic0 b := by
  obtain ⟨hrest, hnoise, hlast⟩ := (losesMagic0_iff offset' _).mp h
  rw [losesMagic0_iff offset, hk]
  refine ⟨hrest, ?_, ?_⟩
  · rw [List.map_append, List.getLast?_append, hnoise]
    rfl
  · rw [List.getLast?_drop] at hlast
    split_ifs at hlast
    exact hlast

theorem KeepsMagic.tail {b next : List UInt8} {segs : List RxSegment} {offset offset' k : ℕ}
    (hk : rxRead offset b = (segs ++ (rxRead offset' (b.drop k)).1, (rxRead offset' (b.drop k)).2))
    (h : KeepsMagic b next) : KeepsMagic (b.drop k) next :=
  fun hl => h (hl.of_tail hk)

/-- The receive loop reads the stream as a whole, as long as it cuts no magic in two. -/
theorem rxRead_resumes : rxRead.Resumes rxParse KeepsMagic := by
  intro offset b x hkeep
  induction hb : b.length using Nat.strong_induction_on generalizing offset b with
  | _ len ih =>
    subst hb
    cases rxRead_cases offset b with
    | short hlen hr => simp [hr]
    | clear hlen hno hr =>
      have hjoin : ¬ (b.getLast? = some uprotoMagic0 ∧ x.head? = some uprotoMagic1) := by
        rintro ⟨hlast, hhead⟩
        refine hkeep ((losesMagic0_iff offset b).mpr ?_) hhead
        rw [hr, noises_isNoise, List.getLast?_replicate, if_neg (by omega)]
        exact ⟨rfl, rfl, hlast⟩
      rw [hr, rxParse_noise (by rw [List.length_append]; omega) (noMagic_append hno hjoin)]
      simp
    | wait n hlen hm hpart hr =>
      have hn := hm.here.two_le
      rw [List.length_drop] at hn
      rw [hr, rxParse_firstMagic hm x, List.length_drop]
      have hoff : offset + b.length - (b.length - n) = offset + n := by omega
      rw [hoff]
    | skip n hm hpart hbad hr =>
      have hr' : rxRead offset b = ((noises offset n ++ [.badLength (offset + n)]) ++
          (rxRead (offset + n + 2) (b.drop (n + 2))).1, (rxRead (offset + n + 2) (b.drop (n + 2))).2) := by
        rw [hr, List.append_assoc]
        rfl
      have hrest := ih _ (by rw [List.length_drop]; omega) (offset + n + 2) (b.drop (n + 2))
        (hkeep.tail hr') rfl
      have hoff : offset + n + 2 + (b.length - (n + 2)) = offset + b.length := by omega
      rw [List.length_drop, hoff] at hrest
      rw [rxParse_skip hm hpart hbad x, hrest, hr]
      simp
    | frame n total hm hok htotal hpart hr =>
      have hr' : rxRead offset b =
          ((noises offset n ++ [.block (offset + n) total (uprotoDecodeFrame (b.drop n) total)]) ++
            (rxRead (offset + n + total) (b.drop (n + total))).1,
            (rxRead (offset + n + total) (b.drop (n + total))).2) := by
        rw [hr, List.append_assoc]
        rfl
      have hrest := ih _ (by rw [List.length_drop]; omega) (offset + n + total) (b.drop (n + total))
        (hkeep.tail hr') rfl
      have hoff : offset + n + total + (b.length - (n + total)) = offset + b.length := by omega
      rw [List.length_drop, hoff] at hrest
      rw [rxParse_frame hm hok htotal hpart x, hrest, hr]
      simp

/-! ### Deliveries -/

/-- The frames handed to `uproto_handle_frame`, each with the offset of its first byte. -/
def deliveries (segments : List RxSegment) : List (ℕ × UprotoFrame) :=
  segments.filterMap RxSegment.delivery

theorem deliveries_append (ss ts : List RxSegment) :
    deliveries (ss ++ ts) = deliveries ss ++ deliveries ts := List.filterMap_append

/-- A remainder that no call can deliver anything from. -/
def Settled (b : List UInt8) : Prop := ∀ offset, deliveries (rxParse offset b) = []

theorem settled_of_short {b : List UInt8} (h : b.length < 18) : Settled b := by
  intro offset
  induction hb : b.length using Nat.strong_induction_on generalizing offset b with
  | _ len ih =>
    subst hb
    by_cases hnil : b = []
    · rw [hnil, rxParse_nil]; rfl
    have hpos := List.length_pos_iff.mpr hnil
    rw [rxParse, dif_neg hnil]
    split_ifs with hm h16 hbad hwait
    · rfl
    · exact ih _ (by rw [List.length_drop]; omega) (by rw [List.length_drop]; omega) _ rfl
    · rfl
    · omega
    · exact ih _ (by rw [List.length_tail]; omega) (by rw [List.length_tail]; omega) _ rfl

theorem rxRead_settled (offset : ℕ) (b : List UInt8) : Settled (rxRead offset b).2 := by
  induction hb : b.length using Nat.strong_induction_on generalizing offset b with
  | _ len ih =>
    subst hb
    cases rxRead_cases offset b with
    | short hlen hr => rw [hr]; exact settled_of_short hlen
    | clear hlen hno hr => rw [hr]; exact settled_of_short (by simp)
    | wait n hlen hm hpart hr =>
      rw [hr]
      intro offset
      rw [rxParse_wait hm.here (by rw [List.length_drop]; exact hpart)]
      rfl
    | skip n hm hpart hbad hr => rw [hr]; exact ih _ (by rw [List.length_drop]; omega) _ _ rfl
    | frame n total hm hok htotal hpart hr =>
      rw [hr]; exact ih _ (by rw [List.length_drop]; omega) _ _ rfl

/-- The deliveries of a run that cuts no magic in two are those of the whole stream. -/
theorem deliveries_feed {offset : ℕ} {b : List UInt8} {chunks : List (List UInt8)} (hb : Settled b)
    (hfit : rxRead.Fits uprotoRxBufferSize offset b chunks)
    (hkeep : rxRead.Along uprotoRxBufferSize KeepsMagic offset b chunks) :
    deliveries (rxRead.feed uprotoRxBufferSize offset b chunks).out =
      deliveries (rxParse offset (b ++ chunks.flatten)) := by
  have hrest : Settled (rxRead.feed uprotoRxBufferSize offset b chunks).rest :=
    rxRead.feed_rest rxRead_settled _ _ _ chunks hb
  rw [Reader.feed_parse rxRead_resumes _ _ _ _ hfit hkeep, deliveries_append, hrest, List.append_nil]

end SpVision
