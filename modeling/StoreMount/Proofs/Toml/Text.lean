import Mathlib.Tactic.Common
import StoreMount.Toml.Text

/-!
# Strings are read back as they were written

Each way of writing a string has a reader, and the reader undoes it: character by character between
single quotes of either kind, and up to the three closing quotes in a long string, where quotes of
the string's own may stand right before the closing ones. So `read_write`: whatever a string holds,
what was written reads as that string and leaves what came after it.
-/
namespace StoreMount.Toml.Text

/-! ## Words -/

theorem ne_of_class {p : Char → Bool} {c x : Char} (h : p c = true)
    (hother : p x = false) : c ≠ x := by
  rintro rfl
  simp [h] at hother

theorem not_blank_of_class {p : Char → Bool} {c : Char} (h : p c = true) (hspace : p ' ' = false)
    (htab : p '\t' = false) :
    blank c = false := by
  simp [blank, ne_of_class h hspace, ne_of_class h htab]

section
variable {p : Char → Bool} {word rest : List Char} (hinside : ∀ c ∈ word, p c = true)
    (hstop : ∀ c ∈ rest.head?, p c = false)
include hinside hstop

theorem takeWhile_word : (word ++ rest).takeWhile p = word := by
  rw [List.takeWhile_append_of_pos hinside]
  cases rest with
  | nil => simp
  | cons c rest => rw [List.takeWhile_cons_of_neg (by simp [hstop c rfl]), List.append_nil]

theorem dropWhile_word : (word ++ rest).dropWhile p = rest := by
  rw [List.dropWhile_append_of_pos hinside]
  cases rest with
  | nil => rfl
  | cons c rest => rw [List.dropWhile_cons_of_neg (by simp [hstop c rfl])]

end

/-! ## One character -/

theorem hexValue?_upperHex {n : Nat} (h : n < 16) : hexValue? (upperHex n) = some n := by
  revert n
  decide

theorem hexNumber?_hex4 {n : Nat} (h : n < 65536) : hexNumber? (hex4 n) = some n := by
  have hdigit (m : Nat) : hexValue? (upperHex (m % 16)) = some (m % 16) :=
    hexValue?_upperHex (Nat.mod_lt m (by decide))
  simp only [hexNumber?, hex4, List.foldl_cons, List.foldl_nil, Option.bind_some, Option.map_some,
    hdigit]
  congr 1
  omega

theorem scalar?_hex4 {c : Char} (h : c.toNat < 65536) : scalar? (hex4 c.toNat) = some c := by
  have hvalid : c.toNat.isValidChar := c.valid
  simp [scalar?, hexNumber?_hex4 h, hvalid, Char.ofNat_toNat]

theorem toNat_lt_of_escaped {c : Char} (h : escaped c = true) : c.toNat < 65536 := by
  simp only [escaped, Bool.or_eq_true, Bool.and_eq_true, decide_eq_true_eq] at h
  rcases h with ⟨⟨h, -⟩, -⟩ | rfl
  · exact Nat.lt_of_le_of_lt (m := '\x1f'.toNat) h (by decide)
  · decide

theorem plain_of_not_escaped {c : Char} (h : escaped c = false) (hline : c ≠ '\n') :
    plain c = true := by
  simp only [escaped, plain, Bool.or_eq_false_iff, Bool.and_eq_false_iff,
    decide_eq_false_iff_not] at h ⊢
  obtain ⟨hcontrol, hdelete⟩ := h
  by_cases htab : c = '\t'
  · simp [htab]
  · have habove : ¬ c ≤ '\x1f' := by simpa [htab, hline] using hcontrol
    have : ' ' ≤ c := by
      have : ¬ c.toNat ≤ 31 := habove
      show 32 ≤ c.toNat
      omega
    simp [this, hdelete]

theorem shortEscape?_letter {x c : Char} (h : shortEscape? x = some c) :
    x ∈ ['b', 't', 'n', 'f', 'r', '"', '\\'] := by
  unfold shortEscape? at h
  split at h
  case h_8 => cases h
  all_goals decide

theorem ne_u_of_shortEscape? {x c : Char} (h : shortEscape? x = some c) : x ≠ 'u' ∧ x ≠ 'U' := by
  constructor <;> rintro rfl <;> cases h

/-- How one character may be spelled between double quotes; a line end as it is in long strings
only. -/
inductive Spells (long : Bool) : Char → List Char → Prop
  | short {x c : Char} (h : shortEscape? x = some c) : Spells long c ['\\', x]
  | code {c : Char} (h : c.toNat < 65536) : Spells long c ('\\' :: 'u' :: hex4 c.toNat)
  | bare {c : Char} (h : plain c = true) (hquote : c ≠ '"') (hslash : c ≠ '\\') : Spells long c [c]
  | line (h : long = true) : Spells long '\n' ['\n']

theorem Spells.head {long : Bool} {c : Char} {w : List Char} (h : Spells long c w) :
    ∃ x w', w = x :: w' ∧ x ≠ '"' ∧ x ≠ '\r' ∧ (x = '\n' → c = '\n') := by
  cases h with
  | short _ | code _ => exact ⟨'\\', _, rfl, by decide, by decide, fun h => absurd h (by decide)⟩
  | bare h hquote _ => exact ⟨c, [], rfl, hquote, fun e => absurd (e ▸ h) (by decide), id⟩
  | line _ => exact ⟨'\n', [], rfl, by decide, by decide, id⟩

theorem escape_spells (long : Bool) {c : Char} (hquote : c ≠ '"') :
    Spells long c (escape long c) := by
  unfold escape
  split_ifs with hback htab hline hstands hfeed hcarriage hslash hcontrol
  · exact hback ▸ .short rfl
  · exact htab ▸ .short rfl
  · exact hline ▸ .line hstands
  · exact hline ▸ .short rfl
  · exact hfeed ▸ .short rfl
  · exact hcarriage ▸ .short rfl
  · subst hslash
    exact .short rfl
  · exact .code (toNat_lt_of_escaped hcontrol)
  · exact .bare (plain_of_not_escaped (Bool.eq_false_iff.2 hcontrol) hline) hquote hslash

theorem escapeAll_cons (long : Bool) {limit run : Nat} {c : Char} (h : c = '"' → limit ≤ run)
    (s : List Char) :
    ∃ w, Spells long c w ∧ escapeAll long limit run (c :: s) = w ++ escapeAll long limit 0 s := by
  by_cases hquote : c = '"'
  · subst hquote
    exact ⟨['\\', '"'], .short rfl, by simp [escapeAll, Nat.not_lt.2 (h rfl)]⟩
  · exact ⟨escape long c, escape_spells long hquote, by simp [escapeAll, hquote]⟩

/-! ## On one line -/

theorem basic_spelled {c : Char} {w : List Char} (h : Spells false c w) (rest : List Char) :
    basic (w ++ rest) = push c (basic rest) := by
  cases h with
  | @short x _ h =>
    rw [List.cons_append, List.cons_append, List.nil_append, basic, h, Option.bind_some]
    all_goals simp [ne_u_of_shortEscape? h]
  | code h =>
    have hvalue := scalar?_hex4 h
    simp only [hex4] at hvalue
    simp only [hex4, List.cons_append, List.nil_append, basic, hvalue, Option.bind_some]
  | bare h hquote hslash =>
    rw [List.cons_append, List.nil_append, basic, if_pos h]
    all_goals simp [hquote, hslash]
  | line h => cases h

theorem basic_escapeAll (s rest : List Char) :
    basic (escapeAll false 0 0 s ++ '"' :: rest) = some (s, rest) := by
  induction s with
  | nil => simp [escapeAll, basic]
  | cons c s ih =>
    obtain ⟨w, hspelled, hwritten⟩ := escapeAll_cons false (fun _ : c = '"' => Nat.zero_le 0) s
    rw [hwritten, List.append_assoc, basic_spelled hspelled, ih, push, Option.map_some]

theorem literal_append {s : List Char} (hcontrol : ∀ c ∈ s, plain c = true) (hquote : '\'' ∉ s)
    (rest : List Char) :
    literal (s ++ '\'' :: rest) = some (s, rest) := by
  induction s with
  | nil => simp [literal]
  | cons c s ih =>
    simp only [List.mem_cons, not_or, forall_eq_or_imp] at hcontrol hquote
    rw [List.cons_append, literal, ih hcontrol.2 hquote.2, if_pos hcontrol.1, push, Option.map_some]
    exact fun h => hquote.1 h.symm

/-! ## Over several lines -/

theorem longBasic_spelled {c : Char} {w : List Char} (h : Spells true c w) (rest : List Char) :
    longBasic false (w ++ rest) = push c (longBasic false rest) := by
  cases h with
  | @short x _ h =>
    have hinside : endsLine (x :: rest) = false := by
      have hletter := shortEscape?_letter h
      simp only [List.mem_cons, List.not_mem_nil, or_false] at hletter
      rcases hletter with rfl | rfl | rfl | rfl | rfl | rfl | rfl <;> rfl
    rw [List.cons_append, List.cons_append, List.nil_append, longBasic, hinside, h]
    all_goals simp [ne_u_of_shortEscape? h]
  | code h =>
    have hvalue := scalar?_hex4 h
    simp only [hex4] at hvalue
    simp only [hex4, List.cons_append, List.nil_append, longBasic, hvalue, Option.bind_some]
  | bare h hquote hslash =>
    have hline : c ≠ '\n' ∧ c ≠ '\r' := by constructor <;> rintro rfl <;> cases h
    rw [List.cons_append, List.nil_append, longBasic, if_pos h]
    all_goals simp [hquote, hslash, hline]
  | line h => simp [longBasic]

/-- What the two readers of long strings have in common: three quotes end the string, fewer belong
to it. -/
structure Long (q : Char) (reader : List Char → Option (List Char × List Char)) : Prop where
  three (rest : List Char) : reader (q :: q :: q :: rest) = some (closing q rest)
  fewer {rest : List Char} (h : ¬ [q, q] <+: rest) : reader (q :: rest) = push q (reader rest)

theorem longBasic_long : Long '"' (longBasic false) where
  three rest := by simp [longBasic]
  fewer {rest} h := by
    rw [longBasic]
    · rfl
    -- of the other ways to go on, all but three quotes begin with another character
    all_goals simp
    rintro after rfl
    exact h ⟨after, rfl⟩

theorem longLiteral_long : Long '\'' longLiteral where
  three rest := by simp [longLiteral]
  fewer {rest} h := by
    rw [longLiteral]
    · rfl
    all_goals simp
    rintro after rfl
    exact h ⟨after, rfl⟩

section Long
variable {q : Char} {reader : List Char → Option (List Char × List Char)} (hlong : Long q reader)
include hlong

theorem Long.closes (run : Nat) (hfew : run ≤ 2) {rest : List Char} (h : rest.head? ≠ some q) :
    reader (List.replicate run q ++ q :: q :: q :: rest) = some (List.replicate run q, rest) := by
  have hshift : List.replicate run q ++ q :: q :: q :: rest =
      q :: q :: q :: (List.replicate run q ++ rest) := by
    have hthree : q :: q :: q :: rest = List.replicate 3 q ++ rest := rfl
    rw [hthree, ← List.append_assoc, List.replicate_append_replicate, Nat.add_comm,
      ← List.replicate_append_replicate, List.append_assoc]
    rfl
  have htaken : (List.replicate run q ++ rest).takeWhile (· = q) = List.replicate run q :=
    takeWhile_word (by simp) (by rintro c hc; simpa using fun e : c = q => h (e ▸ hc))
  have hextra : ((List.replicate run q ++ rest).takeWhile (· = q)).length = run := by
    rw [htaken, List.length_replicate]
  rw [hshift, hlong.three, closing, hextra, Nat.min_eq_left hfew]
  simp

theorem Long.pends {run : Nat} (hfew : run ≤ 2) {rest s after : List Char} (h : rest.head? ≠ some q)
    (hread : reader rest = some (s, after)) :
    reader (List.replicate run q ++ rest) = some (List.replicate run q ++ s, after) := by
  have honce : reader (q :: rest) = some (q :: s, after) := by
    rw [hlong.fewer, hread, push, Option.map_some]
    rintro ⟨t, rfl⟩
    exact h rfl
  match run, hfew with
  | 0, _ => exact hread
  | 1, _ => exact honce
  | 2, _ =>
    show reader (q :: q :: rest) = _
    rw [hlong.fewer, honce, push, Option.map_some]
    · rfl
    · rintro ⟨t, ht⟩
      simp only [List.cons_append, List.nil_append, List.cons.injEq] at ht
      exact h (by rw [← ht.2]; rfl)

end Long

/-- A quote is only read once it is known that it does not begin the closing three, so the induction
carries the quotes that stand unread before the rest of the string. -/
theorem longBasic_escapeAll (run : Nat) (hfew : run ≤ 2) (s : List Char) {rest : List Char}
    (h : rest.head? ≠ some '"') :
    longBasic false
      (List.replicate run '"' ++ (escapeAll true 2 run s ++ '"' :: '"' :: '"' :: rest))
      = some (List.replicate run '"' ++ s, rest) := by
  induction s generalizing run with
  | nil => simpa [escapeAll] using longBasic_long.closes run hfew h
  | cons c s ih =>
    by_cases hmore : c = '"' ∧ run < 2
    · obtain ⟨rfl, hmore⟩ := hmore
      have := ih (run + 1) hmore
      simpa [escapeAll, hmore, List.replicate_succ'] using this
    · have hfull (hquote : c = '"') : 2 ≤ run := Nat.not_lt.1 fun hfew => hmore ⟨hquote, hfew⟩
      obtain ⟨w, hspelled, hwritten⟩ := escapeAll_cons true hfull s
      obtain ⟨x, w', rfl, hquote, -⟩ := hspelled.head
      have hread := longBasic_spelled hspelled (escapeAll true 2 0 s ++ '"' :: '"' :: '"' :: rest)
      have ih := ih 0 (by decide)
      simp only [List.replicate_zero, List.nil_append] at ih
      rw [ih, push, Option.map_some] at hread
      rw [hwritten, List.append_assoc]
      exact longBasic_long.pends hfew (by simpa using hquote) hread

theorem le_longestRun (q : Char) (run : Nat) (s : List Char) : run ≤ longestRun q run s := by
  induction s generalizing run with
  | nil => exact Nat.le_refl run
  | cons c s ih =>
    unfold longestRun
    split
    · exact Nat.le_of_succ_le (ih (run + 1))
    · exact Nat.le_max_left _ _

theorem not_mem_of_longestRun {q : Char} {run : Nat} {s : List Char}
    (h : longestRun q run s = 0) : q ∉ s := by
  induction s generalizing run with
  | nil => exact List.not_mem_nil
  | cons c s ih =>
    unfold longestRun at h
    split at h
    · exact absurd (h ▸ le_longestRun q (run + 1) s) (Nat.not_succ_le_zero run)
    · next hother =>
        exact List.not_mem_cons_of_ne_of_not_mem (Ne.symm hother) (ih (Nat.max_eq_zero_iff.1 h).2)

theorem longLiteral_append (run : Nat) {s : List Char} (hfew : longestRun '\'' run s ≤ 2)
    (hcontrol : ∀ c ∈ s, escaped c = false) {rest : List Char} (h : rest.head? ≠ some '\'') :
    longLiteral (List.replicate run '\'' ++ (s ++ '\'' :: '\'' :: '\'' :: rest))
      = some (List.replicate run '\'' ++ s, rest) := by
  induction s generalizing run with
  | nil => simpa using longLiteral_long.closes run hfew h
  | cons c s ih =>
    have hpending := Nat.le_trans (le_longestRun _ _ _) hfew
    simp only [List.mem_cons, forall_eq_or_imp] at hcontrol
    by_cases hquote : c = '\''
    · subst hquote
      have := ih (run + 1) (by simpa [longestRun] using hfew) hcontrol.2
      simpa [List.replicate_succ'] using this
    · simp only [longestRun, hquote, if_false, Nat.max_le] at hfew
      have ih := ih 0 hfew.2 hcontrol.2
      refine longLiteral_long.pends hpending (by simpa using hquote) ?_
      simp only [List.replicate_zero, List.nil_append] at ih
      by_cases hline : c = '\n'
      · rw [hline, List.cons_append, longLiteral, ih, push, Option.map_some]
      · have hbare := plain_of_not_escaped hcontrol.1 hline
        rw [List.cons_append, longLiteral, if_pos hbare, ih, push, Option.map_some]
        · rintro rest rfl
          cases hbare
        · exact hline
        · exact fun _ h => absurd h hquote

/-! ## Any string -/

theorem afterOpening_of_head {cs : List Char} (hline : cs.head? ≠ some '\n')
    (hcarriage : cs.head? ≠ some '\r') :
    afterOpening cs = cs := by
  unfold afterOpening
  split
  · exact absurd rfl hline
  · exact absurd rfl hcarriage
  · rfl

theorem afterOpening_opened (s : List Char) {body : List Char}
    (h : ∀ x ∈ body.head?, x ≠ '\r' ∧ (x = '\n' → '\n' ∈ s)) :
    afterOpening ((if s.contains '\n' then ['\n'] else []) ++ body) = body := by
  split
  · rfl
  · next hone =>
    have hone : '\n' ∉ s := by simpa using hone
    exact afterOpening_of_head (fun hline => hone ((h _ hline).2 rfl))
      (fun hcarriage => (h _ hcarriage).1 rfl)

theorem read_basic {cs : List Char} (h : ¬ ['"', '"'] <+: cs) : read ('"' :: cs) = basic cs := by
  rw [read]
  rintro rest rfl
  exact h ⟨rest, rfl⟩

theorem read_literal {cs : List Char} (h : ¬ ['\'', '\''] <+: cs) :
    read ('\'' :: cs) = literal cs := by
  rw [read]
  rintro rest rfl
  exact h ⟨rest, rfl⟩

section
variable {s rest : List Char}

theorem read_doubled (h : rest.head? ≠ some '"') :
    read ('"' :: (escapeAll false 0 0 s ++ ['"']) ++ rest) = some (s, rest) := by
  rw [List.cons_append, List.append_assoc, read_basic]
  · exact basic_escapeAll s rest
  · rintro ⟨t, ht⟩
    cases s with
    | nil => exact h (by simp [escapeAll] at ht; simp [← ht])
    | cons c s =>
      obtain ⟨w, hspelled, hwritten⟩ := escapeAll_cons false (fun _ : c = '"' => Nat.zero_le 0) s
      obtain ⟨x, w', rfl, hquote, -⟩ := hspelled.head
      rw [hwritten] at ht
      exact hquote (List.cons.inj ht).1.symm

theorem read_singled (hcontrol : ∀ c ∈ s, plain c = true) (hquote : '\'' ∉ s)
    (h : rest.head? ≠ some '\'') :
    read ('\'' :: (s ++ ['\'']) ++ rest) = some (s, rest) := by
  rw [List.cons_append, List.append_assoc, read_literal]
  · exact literal_append hcontrol hquote rest
  · rintro ⟨t, ht⟩
    cases s with
    | nil => exact h (by simp at ht; simp [← ht])
    | cons c s => exact hquote ((List.cons.inj ht).1 ▸ List.mem_cons_self)

theorem read_doubles_tripled (h : rest.head? ≠ some '"') :
    read ('"' :: '"' :: '"' :: ((if s.contains '\n' then ['\n'] else []) ++ escapeAll true 2 0 s ++
      ['"', '"', '"']) ++ rest)
      = some (s, rest) := by
  have hbody := longBasic_escapeAll 0 (by decide) s h
  simp only [List.cons_append, List.append_assoc, read]
  rw [afterOpening_opened]
  · simpa using hbody
  · cases s with
    | nil => simp [escapeAll]
    | cons c s =>
      by_cases hquote : c = '"'
      · simp [escapeAll, hquote]
      · obtain ⟨w, hspelled, hwritten⟩ :=
          escapeAll_cons true (fun h : c = '"' => absurd h hquote : c = '"' → 2 ≤ 0) s
        obtain ⟨x, w', rfl, -, hcarriage, hline⟩ := hspelled.head
        simp [hwritten, hcarriage]
        intro h
        exact .inl (hline h).symm

theorem read_singles_tripled (hcontrol : ∀ c ∈ s, escaped c = false)
    (hfew : longestRun '\'' 0 s ≤ 2) (h : rest.head? ≠ some '\'') :
    read ('\'' :: '\'' :: '\'' :: ((if s.contains '\n' then ['\n'] else []) ++ s ++
      ['\'', '\'', '\'']) ++ rest)
      = some (s, rest) := by
  have hbody := longLiteral_append 0 hfew hcontrol h
  simp only [List.cons_append, List.append_assoc, read]
  rw [afterOpening_opened]
  · simpa using hbody
  · cases s with
    | nil => simp
    | cons c s =>
      have hcarriage : c ≠ '\r' := by
        rintro rfl
        exact absurd (hcontrol '\r' List.mem_cons_self) (by decide)
      simp [hcarriage]
      exact fun h => .inl h.symm

end

/-- Whatever the string, it is read back, and what comes after it is left, if that does not begin
with a quote. -/
theorem read_write (s : List Char) {rest : List Char} (hdouble : rest.head? ≠ some '"')
    (hsingle : rest.head? ≠ some '\'') :
    read (write s ++ rest) = some (s, rest) := by
  have hcontrol (h : (!s.any escaped) = true) : ∀ c ∈ s, escaped c = false := by simpa using h
  unfold write
  simp only
  split
  · exact read_doubled hdouble
  split
  · next hway =>
    simp only [Bool.and_eq_true, decide_eq_true_eq] at hway
    obtain ⟨⟨hbare, hnone⟩, hone⟩ := hway
    refine read_singled (fun c hc => plain_of_not_escaped (hcontrol hbare c hc) ?_)
      (not_mem_of_longestRun hnone) hsingle
    rintro rfl
    simp [hc] at hone
  split
  · exact read_doubles_tripled hdouble
  split
  · next hway =>
    simp only [Bool.and_eq_true, decide_eq_true_eq] at hway
    exact read_singles_tripled (hcontrol hway.1) hway.2 hsingle
  split
  · next hlines => simpa only [hlines, if_true] using read_doubles_tripled (s := s) hdouble
  · exact read_doubled hdouble

/-- A string of several lines that ends in quotes. -/
example : read (write "1\n'2'\"\"".toList ++ ['\n']) = some ("1\n'2'\"\"".toList, ['\n']) := by
  decide +kernel

end StoreMount.Toml.Text
