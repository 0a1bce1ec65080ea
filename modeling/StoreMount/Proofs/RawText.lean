import StoreMount.Text.Raw
import Mathlib.Data.List.Basic
import Mathlib.Tactic.Common

/-!
# What byte strings show

A text that is written out as bytes is shown as it was, so texts are byte strings of their own kind.
The bytes below 128 are shown as they are, and no other bytes show a character below 128: what is
shown of a name holds a slash or a dot only where the name does.
-/
namespace StoreMount.RawText

/-! ## Spelling and reading back -/

theorem decode_begin {b : UInt8} {c : Begun} (h : begin? b.toNat = some c) (bs : List UInt8) :
    decode none (b :: bs) = decode (some c) bs := by
  have hb : ¬b.toNat < 0x80 := fun hb => by
    unfold begin? at h
    repeat' split at h
    all_goals first | omega | cases h
  rw [decode, step, start, if_neg hb, h, List.nil_append]

theorem decode_more {c : Begun} {b : UInt8} {n : Nat} (hb : c.least ≤ b.toNat ∧ b.toNat ≤ c.most)
    (hn : c.more = n + 1) (bs : List UInt8) :
    decode (some c) (b :: bs) = decode (some ⟨n, 0x80, 0xBF, c.spelling b.toNat⟩) bs := by
  rw [decode, step, if_pos hb, hn, List.nil_append]

theorem decode_last {c : Begun} {b : UInt8} (hb : c.least ≤ b.toNat ∧ b.toNat ≤ c.most)
    (hn : c.more = 0) (bs : List UInt8) :
    decode (some c) (b :: bs) = Char.ofNat (c.spelling b.toNat) :: decode none bs := by
  rw [decode, step, if_pos hb, hn]
  rfl

theorem toNat_ofNat_byte {v : Nat} (h : v < 256) : (UInt8.ofNat v).toNat = v := by
  rw [UInt8.toNat_ofNat', Nat.mod_eq_of_lt h]

theorem toNat_tail (v : Nat) : (UInt8.ofNat (v % 64 + 128)).toNat = v % 64 + 128 :=
  toNat_ofNat_byte (by omega)

theorem tail_bounds (v : Nat) : 0x80 ≤ v % 64 + 128 ∧ v % 64 + 128 ≤ 0xBF := by omega

theorem begin?_two {n : Nat} (hn : 2 ≤ n ∧ n < 32) :
    begin? (n + 192) = some ⟨0, 0x80, 0xBF, n⟩ := by
  rw [begin?, if_pos (by omega), Nat.add_sub_cancel]

theorem begin?_three {n b : Nat} (hn : n < 16) (hb : 0x80 ≤ b ∧ b ≤ 0xBF)
    (hlong : n = 0 → 0xA0 ≤ b) (hhalf : n = 13 → b ≤ 0x9F) :
    ∃ least most, begin? (n + 224) = some ⟨1, least, most, n⟩ ∧ least ≤ b ∧ b ≤ most := by
  unfold begin?
  rw [if_neg (by omega)]
  by_cases h0 : n = 0
  · exact ⟨0xA0, 0xBF, by simp [h0], hlong h0, hb.2⟩
  by_cases h13 : n = 13
  · exact ⟨0x80, 0x9F, by simp [h13], hb.1, hhalf h13⟩
  · refine ⟨0x80, 0xBF, ?_, hb⟩
    rw [if_neg (by omega), if_neg (by omega), if_pos (by omega), Nat.add_sub_cancel]

theorem begin?_four {n b : Nat} (hn : n < 5) (hb : 0x80 ≤ b ∧ b ≤ 0xBF)
    (hlong : n = 0 → 0x90 ≤ b) (hlast : n = 4 → b ≤ 0x8F) :
    ∃ least most, begin? (n + 240) = some ⟨2, least, most, n⟩ ∧ least ≤ b ∧ b ≤ most := by
  unfold begin?
  rw [if_neg (by omega), if_neg (by omega), if_neg (by omega), if_neg (by omega)]
  by_cases h0 : n = 0
  · exact ⟨0x90, 0xBF, by simp [h0], hlong h0, hb.2⟩
  by_cases h4 : n = 4
  · exact ⟨0x80, 0x8F, by simp [h4], hb.1, hlast h4⟩
  · refine ⟨0x80, 0xBF, ?_, hb⟩
    rw [if_neg (by omega), if_pos (by omega), Nat.add_sub_cancel]

/-- What a character's bytes spell is the character, whatever follows it. -/
theorem decode_utf8EncodeChar (c : Char) (bs : List UInt8) :
    decode none (String.utf8EncodeChar c ++ bs) = c :: decode none bs := by
  have hchar : Char.ofNat c.val.toNat = c := c.ofNat_toNat
  have hvalid : c.val.toNat < 0xD800 ∨ 0xDFFF < c.val.toNat ∧ c.val.toNat < 0x110000 := c.valid
  unfold String.utf8EncodeChar
  generalize c.val.toNat = v at hchar hvalid
  dsimp only
  -- a character takes one byte, two, three or four
  split
  · next h1 =>
    rw [List.singleton_append, decode, step, start, toNat_ofNat_byte (by omega),
      if_pos (by omega), hchar]
    rfl
  split
  · next h1 h2 =>
    have hb : (UInt8.ofNat (v / 64 % 32 + 192)).toNat = v / 64 + 192 := by
      rw [toNat_ofNat_byte (by omega)]
      omega
    have hbegin := begin?_two (n := v / 64) (by omega)
    have hv : Begun.spelling ⟨0, 0x80, 0xBF, v / 64⟩ (v % 64 + 128) = v := by
      dsimp only [Begun.spelling]
      omega
    rw [List.cons_append, List.singleton_append, decode_begin (hb ▸ hbegin),
      decode_last (by rw [toNat_tail]; exact tail_bounds v) rfl, toNat_tail, hv, hchar]
  split
  · next h1 h2 h3 =>
    have hb : (UInt8.ofNat (v / 4096 % 16 + 224)).toNat = v / 4096 + 224 := by
      rw [toNat_ofNat_byte (by omega)]
      omega
    obtain ⟨least, most, hbegin, hsecond⟩ := begin?_three (n := v / 4096) (by omega)
      (tail_bounds (v / 64)) (by omega) (by omega)
    have hv : Begun.spelling ⟨0, 0x80, 0xBF,
        Begun.spelling ⟨1, least, most, v / 4096⟩ (v / 64 % 64 + 128)⟩ (v % 64 + 128) = v := by
      dsimp only [Begun.spelling]
      omega
    rw [List.cons_append, List.cons_append, List.singleton_append, decode_begin (hb ▸ hbegin),
      decode_more (by rw [toNat_tail]; exact hsecond) rfl, toNat_tail,
      decode_last (by rw [toNat_tail]; exact tail_bounds v) rfl, toNat_tail, hv, hchar]
  · next h1 h2 h3 =>
    have hb : (UInt8.ofNat (v / 262144 % 8 + 240)).toNat = v / 262144 + 240 := by
      rw [toNat_ofNat_byte (by omega)]
      omega
    obtain ⟨least, most, hbegin, hsecond⟩ := begin?_four (n := v / 262144) (by omega)
      (tail_bounds (v / 4096)) (by omega) (by omega)
    have hv : Begun.spelling ⟨0, 0x80, 0xBF, Begun.spelling ⟨1, 0x80, 0xBF,
        Begun.spelling ⟨2, least, most, v / 262144⟩ (v / 4096 % 64 + 128)⟩ (v / 64 % 64 + 128)⟩
          (v % 64 + 128) = v := by
      dsimp only [Begun.spelling]
      omega
    rw [List.cons_append, List.cons_append, List.cons_append, List.singleton_append,
      decode_begin (hb ▸ hbegin), decode_more (by rw [toNat_tail]; exact hsecond) rfl, toNat_tail,
      decode_more (by rw [toNat_tail]; exact tail_bounds _) rfl, toNat_tail,
      decode_last (by rw [toNat_tail]; exact tail_bounds v) rfl, toNat_tail, hv, hchar]

theorem decode_flatMap (cs : List Char) : decode none (cs.flatMap String.utf8EncodeChar) = cs := by
  induction cs with
  | nil => rfl
  | cons c cs ih => rw [List.flatMap_cons, decode_utf8EncodeChar, ih]

@[simp] theorem shown_ofString (s : String) : (ofString s).shown = s := by
  rw [shown, ofString, decode_flatMap, String.ofList_toList]

theorem ofString_inj {s t : String} : ofString s = ofString t ↔ s = t :=
  ⟨fun h => by rw [← shown_ofString s, h, shown_ofString], congrArg ofString⟩

@[simp] theorem text?_ofString (s : String) : (ofString s).text? = some s := by simp [text?]

theorem text?_eq_some_iff {t : RawText} {s : String} : t.text? = some s ↔ t = ofString s := by
  constructor
  · intro h
    unfold text? at h
    split at h
    · next ht => rw [← ht, Option.some.inj h]
    · cases h
  · rintro rfl
    exact text?_ofString s

/-! ## Narrow characters

A byte below 128 shows itself, and nothing else shows a character below 128.
-/

def Begun.Wide (c : Begun) : Prop :=
  0x80 ≤ c.least ∧ c.most ≤ 0xBF ∧
    ∀ v, (c.spelled * 64 + c.least % 64) * Nat.pow 64 c.more ≤ v →
      v < (c.spelled * 64 + c.most % 64 + 1) * Nat.pow 64 c.more → 128 ≤ v ∧ v.isValidChar

theorem wide_of_begin? {b : Nat} {c : Begun} (h : begin? b = some c) : c.Wide := by
  have hvalid : ∀ {v : Nat}, v < 0xD800 ∨ 0xDFFF < v ∧ v < 0x110000 → v.isValidChar := id
  unfold begin? at h
  repeat' split at h
  all_goals
    cases h
  all_goals
    refine ⟨by simp, by simp, fun v hlow hhigh => ⟨?_, hvalid ?_⟩⟩
      <;> dsimp only [Nat.pow_eq] at hlow hhigh <;> omega

theorem toNat_ofNat_wide {v : Nat} (h : 128 ≤ v ∧ v.isValidChar) : 128 ≤ (Char.ofNat v).toNat := by
  rw [Char.ofNat, dif_pos h.2]
  exact h.1

theorem Begun.Wide.spelling {c : Begun} (h : c.Wide) {b : Nat} (hb : c.least ≤ b ∧ b ≤ c.most)
    (hm : c.more = 0) : 128 ≤ (Char.ofNat (c.spelling b)).toNat := by
  obtain ⟨hleast, hmost, hall⟩ := h
  refine toNat_ofNat_wide (hall _ ?_ ?_) <;> rw [hm, Begun.spelling, Nat.pow] <;> omega

theorem Begun.Wide.next {c : Begun} (h : c.Wide) {b n : Nat} (hb : c.least ≤ b ∧ b ≤ c.most)
    (hm : c.more = n + 1) : Begun.Wide ⟨n, 0x80, 0xBF, c.spelling b⟩ := by
  obtain ⟨hleast, hmost, hall⟩ := h
  have hlow : c.spelled * 64 + c.least % 64 ≤ c.spelling b := by rw [Begun.spelling]; omega
  have hhigh : c.spelling b + 1 ≤ c.spelled * 64 + c.most % 64 + 1 := by rw [Begun.spelling]; omega
  refine ⟨Nat.le_refl _, Nat.le_refl _, fun v hv hv' => hall v ?_ ?_⟩ <;> dsimp only at hv hv'
  · rw [hm, Nat.pow_eq, Nat.pow_succ', ← Nat.mul_assoc]
    exact Nat.le_trans (Nat.mul_le_mul_right _ (by omega)) hv
  · rw [hm, Nat.pow_eq, Nat.pow_succ', ← Nat.mul_assoc]
    exact Nat.lt_of_lt_of_le hv' (Nat.mul_le_mul_right _ (by omega))

theorem start_of_narrow {b : Nat} (hb : b < 128) : start b = ([Char.ofNat b], none) := if_pos hb

theorem start_of_wide {b : Nat} (hb : 128 ≤ b) :
    (∀ ch ∈ (start b).1, 128 ≤ ch.toNat) ∧ (∀ c, (start b).2 = some c → c.Wide) ∧
      ((start b).1 = [] → (start b).2 ≠ none) := by
  rw [start, if_neg (Nat.not_lt.2 hb)]
  cases h : begin? b with
  | none => exact ⟨List.forall_mem_singleton.2 (by decide), by simp, by simp⟩
  | some c =>
    refine ⟨by simp, fun d hd => ?_, by simp⟩
    obtain rfl := Option.some.inj hd
    exact wide_of_begin? h

variable {begun : Option Begun} {bs : List UInt8}

theorem step_of_narrow (hp : ∀ c, begun = some c → c.Wide) {b : Nat} (hb : b < 128) :
    ∃ before : List Char, (∀ ch ∈ before, 128 ≤ ch.toNat) ∧ (before = [] → begun = none) ∧
      step begun b = (before ++ [Char.ofNat b], none) := by
  cases begun with
  | none => exact ⟨[], by simp, by simp, start_of_narrow hb⟩
  | some c =>
    have hlow : ¬(c.least ≤ b ∧ b ≤ c.most) := fun h => by
      have := (hp c rfl).1
      omega
    refine ⟨[replacement], List.forall_mem_singleton.2 (by decide), by simp, ?_⟩
    rw [step, if_neg hlow, start_of_narrow hb]
    rfl

theorem step_of_wide (hp : ∀ c, begun = some c → c.Wide) {b : Nat} (hb : 128 ≤ b) :
    (∀ ch ∈ (step begun b).1, 128 ≤ ch.toNat) ∧ (∀ c, (step begun b).2 = some c → c.Wide) ∧
      ((step begun b).1 = [] → (step begun b).2 ≠ none) := by
  obtain ⟨hshown, hwide, -⟩ := start_of_wide hb
  cases begun with
  | none => exact start_of_wide hb
  | some c =>
    by_cases h : c.least ≤ b ∧ b ≤ c.most
    · rw [step, if_pos h]
      cases hm : c.more with
      | zero => exact ⟨by simpa using (hp c rfl).spelling h hm, by simp, by simp⟩
      | succ n =>
        refine ⟨by simp, fun d hd => ?_, by simp⟩
        obtain rfl := Option.some.inj hd
        exact (hp c rfl).next h hm
    · rw [step, if_neg h]
      refine ⟨fun ch hch => ?_, hwide, by simp⟩
      rcases List.mem_cons.1 hch with rfl | hch
      · decide +kernel
      · exact hshown ch hch

theorem decode_cons (begun : Option Begun) (b : UInt8) (bs : List UInt8) :
    decode begun (b :: bs) = (step begun b.toNat).1 ++ decode (step begun b.toNat).2 bs := by
  cases begun <;> rfl

theorem toNat_ofNat_narrow {b : Nat} (hb : b < 128) : (Char.ofNat b).toNat = b := by
  rw [Char.ofNat, dif_pos (.inl (by omega))]
  rfl

theorem mem_of_mem_decode (hp : ∀ c, begun = some c → c.Wide) {ch : Char}
    (hch : ch ∈ decode begun bs) (hn : ch.toNat < 128) : ∃ b ∈ bs, b.toNat = ch.toNat := by
  induction bs generalizing begun with
  | nil =>
    cases begun with
    | none => cases hch
    | some c =>
      obtain rfl := List.mem_singleton.1 hch
      exact absurd hn (by decide +kernel)
  | cons b bs ih =>
    rw [decode_cons] at hch
    by_cases hb : b.toNat < 128
    · obtain ⟨before, hbefore, -, hstep⟩ := step_of_narrow hp hb
      rw [hstep, List.append_assoc, List.mem_append] at hch
      rcases hch with hch | hch
      · exact absurd (hbefore ch hch) (by omega)
      rcases List.mem_cons.1 hch with rfl | hch
      · exact ⟨b, List.mem_cons_self, (toNat_ofNat_narrow hb).symm⟩
      · obtain ⟨d, hd, he⟩ := ih (by simp) hch
        exact ⟨d, List.mem_cons_of_mem _ hd, he⟩
    · obtain ⟨hshown, hwide, -⟩ := step_of_wide hp (Nat.le_of_not_lt hb)
      rcases List.mem_append.1 hch with hch | hch
      · exact absurd (hshown ch hch) (by omega)
      · obtain ⟨d, hd, he⟩ := ih hwide hch
        exact ⟨d, List.mem_cons_of_mem _ hd, he⟩

theorem narrow_of_decode (hp : ∀ c, begun = some c → c.Wide)
    (h : ∀ ch ∈ decode begun bs, ch.toNat < 128) :
    begun = none ∧ (∀ b ∈ bs, b.toNat < 128) ∧ decode begun bs = bs.map fun b =>
      Char.ofNat b.toNat := by
  induction bs generalizing begun with
  | nil =>
    cases begun with
    | none => exact ⟨rfl, by simp, rfl⟩
    | some c => exact absurd (h replacement List.mem_cons_self) (by decide +kernel)
  | cons b bs ih =>
    rw [decode_cons] at h ⊢
    by_cases hb : b.toNat < 128
    · obtain ⟨before, hbefore, hfirst, hstep⟩ := step_of_narrow hp hb
      rw [hstep] at h ⊢
      have hnil : before = [] := List.eq_nil_iff_forall_not_mem.2 fun ch hch =>
        absurd (hbefore ch hch) (Nat.not_le.2 (h ch (by simp [hch])))
      obtain ⟨-, hbs, hdecode⟩ := @ih none (by simp) fun ch hch => h ch (by simp [hch])
      refine ⟨hfirst hnil, fun d hd => ?_, by rw [hnil, hdecode]; rfl⟩
      rcases List.mem_cons.1 hd with rfl | hd
      · exact hb
      · exact hbs d hd
    · obtain ⟨hshown, hwide, hmore⟩ := step_of_wide hp (Nat.le_of_not_lt hb)
      have hnil : (step begun b.toNat).1 = [] := List.eq_nil_iff_forall_not_mem.2 fun ch hch =>
        absurd (hshown ch hch) (Nat.not_le.2 (h ch (by simp [hch])))
      obtain ⟨hnone, -, -⟩ := ih hwide fun ch hch => h ch (by simp [hch])
      exact absurd hnone (hmore hnil)

theorem utf8EncodeChar_of_narrow {c : Char} (hc : c.toNat < 128) :
    String.utf8EncodeChar c = [UInt8.ofNat c.toNat] := by
  unfold String.utf8EncodeChar
  exact if_pos (Nat.le_of_lt_succ hc)

theorem narrow_of_mem_utf8EncodeChar {c : Char} {b : UInt8} (hb : b ∈ String.utf8EncodeChar c)
    (hn : b.toNat < 128) :
    c.toNat = b.toNat := by
  by_cases hc : c.toNat < 128
  · rw [utf8EncodeChar_of_narrow hc, List.mem_singleton] at hb
    rw [hb, UInt8.toNat_ofNat', Nat.mod_eq_of_lt (by omega)]
  · have hv : ¬c.val.toNat ≤ 127 := fun h => hc (Nat.lt_succ_of_le h)
    unfold String.utf8EncodeChar at hb
    dsimp only at hb
    rw [if_neg hv] at hb
    split at hb
    · simp only [List.mem_cons, List.not_mem_nil, or_false] at hb
      rcases hb with rfl | rfl <;> rw [UInt8.toNat_ofNat'] at hn <;> omega
    split at hb
    · simp only [List.mem_cons, List.not_mem_nil, or_false] at hb
      rcases hb with rfl | rfl | rfl <;> rw [UInt8.toNat_ofNat'] at hn <;> omega
    · simp only [List.mem_cons, List.not_mem_nil, or_false] at hb
      rcases hb with rfl | rfl | rfl | rfl <;> rw [UInt8.toNat_ofNat'] at hn <;> omega

theorem mem_toList_of_mem_ofString {s : String} {b : UInt8} (hb : b ∈ (ofString s).bytes)
    (hn : b.toNat < 128) :
    Char.ofNat b.toNat ∈ s.toList := by
  obtain ⟨c, hc, hmem⟩ := List.mem_flatMap.1 hb
  rw [← narrow_of_mem_utf8EncodeChar hmem hn, Char.ofNat_toNat]
  exact hc

theorem mem_bytes_of_mem_shown {t : RawText} {ch : Char} (hch : ch ∈ t.shown.toList)
    (hn : ch.toNat < 128) :
    UInt8.ofNat ch.toNat ∈ t.bytes := by
  rw [shown, String.toList_ofList] at hch
  obtain ⟨b, hb, he⟩ := mem_of_mem_decode (by simp) hch hn
  rw [← he, UInt8.ofNat_toNat]
  exact hb

theorem ofString_shown_of_narrow {t : RawText} (h : ∀ ch ∈ t.shown.toList, ch.toNat < 128) :
    ofString t.shown = t := by
  rw [shown, String.toList_ofList] at h
  obtain ⟨-, hbytes, hdecode⟩ := narrow_of_decode (by simp) h
  cases t with
  | mk bytes =>
    rw [shown, ofString, String.toList_ofList, hdecode, List.flatMap_map]
    congr 1
    conv => rhs; rw [← List.flatMap_singleton' bytes]
    refine List.flatMap_congr fun b hb => ?_
    have hn := hbytes b hb
    rw [utf8EncodeChar_of_narrow (by rwa [toNat_ofNat_narrow hn]), toNat_ofNat_narrow hn,
      UInt8.ofNat_toNat]

end StoreMount.RawText
