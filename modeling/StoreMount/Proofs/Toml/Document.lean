import StoreMount.Proofs.Toml.Entries
import StoreMount.Proofs.Toml.Scalar

/-!
# Tables are read back as they were written

A table is written as its name between brackets and a line for each key. A line whose key is bare
and whose value is read up to the end of the line does what it says to the tables before it, and
leaves the lines after it.
-/
namespace StoreMount.Toml

/-! ## Keys -/

def bare (key : String) : Bool := !key.toList.isEmpty && key.toList.all bareKeyChar

def dotted : List String → List Char
  | [] => []
  | [key] => key.toList
  | key :: next :: keys => key.toList ++ '.' :: dotted (next :: keys)

theorem bare_cons {key : String} (h : bare key = true) :
    ∃ c cs, key.toList = c :: cs ∧ bareKeyChar c = true := by
  simp only [bare, Bool.and_eq_true, Bool.not_eq_true', List.isEmpty_eq_false_iff,
    List.all_eq_true] at h
  obtain ⟨c, cs, e⟩ := List.exists_cons_of_ne_nil h.1
  exact ⟨c, cs, e, h.2 c (e ▸ List.mem_cons_self)⟩

theorem dotted_cons {keys : List String} (hplain : ∀ key ∈ keys, bare key = true)
    (hany : keys ≠ []) :
    ∃ c cs, dotted keys = c :: cs ∧ bareKeyChar c = true := by
  cases keys with
  | nil => exact absurd rfl hany
  | cons key keys =>
    obtain ⟨c, cs, e, hfirst⟩ := bare_cons (hplain key List.mem_cons_self)
    cases keys with
    | nil => exact ⟨c, cs, e, hfirst⟩
    | cons next keys =>
      exact ⟨c, cs ++ '.' :: dotted (next :: keys), by rw [dotted, e, List.cons_append], hfirst⟩

theorem skipBlank_solid {c : Char} (h : Text.blank c = false) (cs : List Char) :
    skipBlank (c :: cs) = c :: cs :=
  List.dropWhile_cons_of_neg (by simp [h])

theorem skipBlank_bare {key : String} (h : bare key = true) (rest : List Char) :
    skipBlank (key.toList ++ rest) = key.toList ++ rest := by
  obtain ⟨c, cs, e, hfirst⟩ := bare_cons h
  rw [e, List.cons_append, skipBlank_solid (Text.not_blank_of_class hfirst rfl rfl)]

theorem simpleKey_bare {key : String} (h : bare key = true) {rest : List Char}
    (hstop : ∀ c ∈ rest.head?, bareKeyChar c = false) :
    simpleKey (key.toList ++ rest) = some (key, rest) := by
  obtain ⟨c, cs, e, hfirst⟩ := bare_cons h
  have hall : ∀ c ∈ key.toList, bareKeyChar c = true := by
    simp only [bare, Bool.and_eq_true, List.all_eq_true] at h
    exact h.2
  have hword := Text.takeWhile_word hall hstop
  have hleft := Text.dropWhile_word hall hstop
  unfold simpleKey
  split
  · next hfound => exact absurd (List.cons.inj (e ▸ hfound)).1 (Text.ne_of_class hfirst rfl)
  · next hfound => exact absurd (List.cons.inj (e ▸ hfound)).1 (Text.ne_of_class hfirst rfl)
  · simp only [hword, hleft]
    rw [if_neg (by simp [e]), String.ofList_toList]

theorem keyParts_dotted {keys : List String} (hplain : ∀ key ∈ keys, bare key = true)
    (hany : keys ≠ []) {n : Nat} (hfew : keys.length ≤ n) {rest left : List Char}
    {c : Char} (hstop : ∀ c ∈ rest.head?, bareKeyChar c = false)
    (hnext : skipBlank rest = c :: left) (hdot : c ≠ '.') :
    keyParts n (dotted keys ++ rest) = some (keys, c :: left) := by
  induction keys using dotted.induct generalizing n with
  | case1 => exact absurd rfl hany
  | case2 key =>
    obtain ⟨n, rfl⟩ : ∃ m, n = m + 1 := ⟨n - 1, by simp at hfew; omega⟩
    have hhere := hplain key List.mem_cons_self
    rw [keyParts, dotted, skipBlank_bare hhere, simpleKey_bare hhere hstop]
    simp [hnext, hdot]
  | case3 key after keys ih =>
    obtain ⟨n, rfl⟩ : ∃ m, n = m + 1 := ⟨n - 1, by simp at hfew; omega⟩
    have hhere := hplain key List.mem_cons_self
    have ih := ih (n := n) (fun k hk => hplain k (List.mem_cons_of_mem _ hk)) (by simp)
      (by simpa using hfew)
    have hpoint : skipBlank ('.' :: (dotted (after :: keys) ++ rest)) =
      '.' :: (dotted (after :: keys) ++ rest) := rfl
    rw [keyParts, dotted, List.append_assoc, skipBlank_bare hhere, List.cons_append,
      simpleKey_bare hhere (by simp [bareKeyChar, Scalar.decimal])]
    simp [hpoint, ih]

theorem key_dotted (keys : List String) {last : String}
    (hplain : ∀ key ∈ keys ++ [last], bare key = true) (hfew : keys.length < nestingLimit)
    {rest left : List Char} {c : Char} (hstop : ∀ c ∈ rest.head?, bareKeyChar c = false)
    (hnext : skipBlank rest = c :: left) (hdot : c ≠ '.') :
    key (dotted (keys ++ [last]) ++ rest) = some ((keys, last), c :: left) := by
  have hparts := keyParts_dotted hplain (by simp) (n := nestingLimit)
    (by simpa using Nat.succ_le_of_lt hfew) hstop hnext hdot
  simp [key, hparts]

/-! ## Lines -/

/-- Text that is read as a value up to the end of its line. -/
structure Spells (text : List Char) (v : Value) : Prop where
  solid (rest : List Char) : skipBlank (text ++ '\n' :: rest) = text ++ '\n' :: rest
  reads (rest : List Char) : value nestingLimit (text ++ '\n' :: rest) = some (v, '\n' :: rest)

theorem Spells.word {word : List Char} {v : Value} (h : ∀ c ∈ word, wordChar c = true)
    (hread : Scalar.ofWord? word = some v) :
    Spells word v where
  solid rest := by
    cases word with
    | nil => cases hread
    | cons c word =>
      exact skipBlank_solid (Text.not_blank_of_class (h c List.mem_cons_self) rfl rfl) _
  reads := value_word h hread nestingLimit

theorem Spells.string (s : List Char) : Spells (Text.write s) (.string (String.ofList s)) where
  solid rest := by
    obtain ⟨cs, hwritten⟩ | ⟨cs, hwritten⟩ := write_head s
    all_goals rw [hwritten]; rfl
  reads := value_text s nestingLimit

def line (key : String) (text : List Char) : List Char :=
  key.toList ++ " = ".toList ++ text ++ ['\n']

theorem line_cons {key : String} (hplain : bare key = true) (text : List Char) :
    ∃ c cs, line key text = c :: cs ∧ bareKeyChar c = true := by
  obtain ⟨c, cs, e, hfirst⟩ := bare_cons hplain
  exact ⟨c, cs ++ (" = ".toList ++ text ++ ['\n']), by simp [line, e], hfirst⟩

def headline (keys : List String) : List Char := '[' :: (dotted keys ++ "]\n".toList)

theorem binding_line {key : String} (hplain : bare key = true) {text : List Char} {v : Value}
    (h : Spells text v) (rest : List Char) :
    binding (value nestingLimit) (line key text ++ rest) = some (([], key, v), '\n' :: rest) := by
  have hname : Toml.key (key.toList ++ (" = ".toList ++ (text ++ '\n' :: rest)))
      = some (([], key), '=' :: ' ' :: (text ++ '\n' :: rest)) :=
    key_dotted [] (by simpa using hplain) (by decide) (by rintro c ⟨⟩; rfl) rfl (by decide)
  have hgap : skipBlank (' ' :: (text ++ '\n' :: rest)) = text ++ '\n' :: rest := h.solid rest
  simp only [line, List.append_assoc, List.cons_append, List.nil_append]
  rw [binding, hname]
  simp [hgap, h.reads]

theorem lineEnd?_newline (rest : List Char) : lineEnd? ('\n' :: rest) = some rest := rfl

theorem statement_line {key : String} (hplain : bare key = true) {text : List Char} {v : Value}
    (h : Spells text v) (st : State) (rest : List Char) :
    statement st (line key text ++ rest)
      = (st.root.bindUnder st.header [] key v).map fun root => (⟨root, st.header⟩, rest) := by
  have hread := binding_line hplain h rest
  obtain ⟨c, cs, e, hfirst⟩ := line_cons hplain text
  rw [e, List.cons_append] at hread ⊢
  have hother : c ≠ '[' := Text.ne_of_class hfirst rfl
  unfold statement
  split
  · next hfound => exact absurd (List.cons.inj hfound).1 hother
  · next hfound => exact absurd (List.cons.inj hfound).1 hother
  · rw [hread]
    cases hbound : st.root.bindUnder st.header [] key v <;> simp [hbound, lineEnd?_newline]

theorem statement_headline {keys : List String} {last : String} (hplain : ∀ key ∈ keys ++ [last],
      bare key = true) (hfew : keys.length < nestingLimit) (st : State) (rest : List Char) :
    statement st (headline (keys ++ [last]) ++ rest)
      = (st.root.openTable keys last).map fun root => (⟨root, keys ++ [last]⟩, rest) := by
  have hname : key (dotted (keys ++ [last]) ++ ("]\n".toList ++ rest)) =
      some ((keys, last), ']' :: '\n' :: rest) :=
    key_dotted keys hplain hfew (by rintro c ⟨⟩; rfl) rfl (by decide)
  obtain ⟨c, cs, e, hfirst⟩ := dotted_cons hplain (by simp)
  have hother : c ≠ '[' := Text.ne_of_class hfirst rfl
  have hread : header false st (dotted (keys ++ [last]) ++ ("]\n".toList ++ rest))
      = (st.root.openTable keys last).map fun root => (⟨root, keys ++ [last]⟩, '\n' :: rest) := by
    rw [header, hname]
    cases hopened : st.root.openTable keys last <;> simp [hopened]
  rw [headline, List.cons_append, List.append_assoc]
  rw [e, List.cons_append] at hread ⊢
  unfold statement
  split
  · next hfound => exact absurd (List.cons.inj (List.cons.inj hfound).2).1 hother
  · next hfound =>
    rw [← (List.cons.inj hfound).2, hread]
    cases st.root.openTable keys last <;> simp [lineEnd?_newline]
  · next hfound => exact absurd rfl (hfound _)

/-! ## Documents -/

/-- What reading makes of the rest of a document, given that it is granted a step for each
character. -/
def Reads (st : State) (cs : List Char) (st' : State) : Prop :=
  ∀ fuel, cs.length < fuel → statements fuel st cs = some st'

theorem Reads.nil (st : State) : Reads st [] st := by
  intro fuel henough
  obtain ⟨fuel, rfl⟩ : ∃ n, fuel = n + 1 := ⟨fuel - 1, by omega⟩
  rfl

theorem Reads.blankLine {st st' : State} {cs : List Char} (h : Reads st cs st') :
    Reads st ('\n' :: cs) st' := by
  intro fuel henough
  obtain ⟨fuel, rfl⟩ : ∃ n, fuel = n + 1 := ⟨fuel - 1, by omega⟩
  exact h fuel (Nat.lt_of_succ_lt_succ henough)

def opens (c : Char) : Bool := c = '[' || bareKeyChar c

theorem Reads.statement {st next st' : State} {c : Char} {cs rest : List Char}
    (hfirst : opens c = true) (hread : statement st (c :: cs) = some (next, rest))
    (hshorter : rest.length < (c :: cs).length) (h : Reads next rest st') :
    Reads st (c :: cs) st' := by
  intro fuel henough
  obtain ⟨fuel, rfl⟩ : ∃ n, fuel = n + 1 := ⟨fuel - 1, by omega⟩
  unfold statements
  rw [skipBlank_solid (Text.not_blank_of_class hfirst rfl rfl)]
  split
  · next hfound => cases hfound
  · next hfound => exact absurd (List.cons.inj hfound).1 (Text.ne_of_class hfirst rfl)
  · next hfound =>
    obtain ⟨rfl, rfl⟩ := List.cons.inj hfound
    rw [if_neg (not_or.2 ⟨Text.ne_of_class hfirst rfl, Text.ne_of_class hfirst rfl⟩), hread,
      Option.bind_some]
    exact h fuel (Nat.lt_of_lt_of_le hshorter (Nat.le_of_lt_succ henough))

theorem Reads.line {st st' : State} {key : String} {text rest : List Char}
    {v : Value} {root : Entries} (hplain : bare key = true) (hwritten : Spells text v)
    (hbound : st.root.bindUnder st.header [] key v = some root)
    (h : Reads ⟨root, st.header⟩ rest st') : Reads st (line key text ++ rest) st' := by
  have hread := statement_line hplain hwritten st rest
  obtain ⟨c, cs, e, hfirst⟩ := line_cons hplain text
  have hshorter : rest.length < (Toml.line key text ++ rest).length := by
    rw [e, List.length_append, List.length_cons]
    omega
  rw [hbound, Option.map_some, e, List.cons_append] at hread
  rw [e, List.cons_append] at hshorter ⊢
  exact .statement (by simp [opens, hfirst]) hread hshorter h

theorem Reads.headline {st st' : State} {keys : List String} {last : String}
    {rest : List Char} {root : Entries} (hplain : ∀ key ∈ keys ++ [last], bare key = true)
    (hfew : keys.length < nestingLimit) (hopened : st.root.openTable keys last = some root)
    (h : Reads ⟨root, keys ++ [last]⟩ rest st') :
    Reads st (headline (keys ++ [last]) ++ rest) st' := by
  have hread := statement_headline hplain hfew st rest
  have hshorter : rest.length < (Toml.headline (keys ++ [last]) ++ rest).length := by
    rw [Toml.headline, List.length_append, List.length_cons]
    omega
  rw [hopened, Option.map_some, Toml.headline, List.cons_append] at hread
  exact .statement rfl hread hshorter h

section
variable {α : Type} {text : α → List Char} {sense : α → Value} {rows : List (String × α)}
    {rest : List Char} {st : State}

theorem reads_lines (hplain : ∀ row ∈ rows, bare row.1 = true)
    (hwritten : ∀ row ∈ rows, Spells (text row.2) (sense row.2)) {es es' : Entries}
    {header : List String}
    (hbound : (rows.map fun row => (row.1, sense row.2)).foldlM (fun es row =>
      es.bindUnder header [] row.1 row.2) es = some es') (h : Reads ⟨es', header⟩ rest st) :
    Reads ⟨es, header⟩ ((rows.flatMap fun row => line row.1 (text row.2)) ++ rest) st := by
  induction rows generalizing es with
  | nil =>
    cases hbound
    exact h
  | cons row rows ih =>
    rw [List.map_cons, List.foldlM_cons, Option.bind_eq_bind, Option.bind_eq_some_iff] at hbound
    obtain ⟨es₁, hfirst, hothers⟩ := hbound
    rw [List.flatMap_cons, List.append_assoc]
    refine .line (hplain row List.mem_cons_self) (hwritten row List.mem_cons_self) hfirst ?_
    exact ih (fun r hr => hplain r (List.mem_cons_of_mem _ hr))
      (fun r hr => hwritten r (List.mem_cons_of_mem _ hr)) hothers

theorem reads_table {keys : List String} {last : String}
    (hname : ∀ key ∈ keys ++ [last], bare key = true) (hfew : keys.length < nestingLimit)
    (hplain : ∀ row ∈ rows, bare row.1 = true) (hwritten : ∀ row ∈ rows,
      Spells (text row.2) (sense row.2)) {es es' : Entries} {header : List String}
    (hfilled : Entries.fill keys last (rows.map fun row => (row.1, sense row.2)) es = some es')
    (h : Reads ⟨es', keys ++ [last]⟩ rest st) :
    Reads ⟨es, header⟩ (headline (keys ++ [last]) ++
      ((rows.flatMap fun row => line row.1 (text row.2)) ++ rest)) st := by
  rw [Entries.fill, Option.bind_eq_some_iff] at hfilled
  obtain ⟨opened, hfound, hbound⟩ := hfilled
  exact .headline hname hfew hfound (reads_lines hplain hwritten hbound h)

end

theorem read_of_reads {text : String} {st : State} (hunmarked : text.toList.head? ≠ some '\ufeff')
    (h : Reads ⟨[], []⟩ text.toList st) : read text = some st.root := by
  unfold read
  split
  · next hmarked => exact absurd (by rw [hmarked, List.head?_cons]) hunmarked
  · dsimp only
    rw [h _ (Nat.lt_succ_self _), Option.map_some]

end StoreMount.Toml
