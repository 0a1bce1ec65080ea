import Mathlib.Data.List.Nodup
import Mathlib.Tactic.Common
import StoreMount.Toml.Value

/-!
# Filling tables

A header opens a table and the lines under it bind its keys, each by a descent of its own from the
root. Descents along the same keys compose: two changes at one place are one change
(`descend_bind`). So all that a header and the lines under it do is one descent, and where the name
is free and the keys differ that descent adds the table they spell (`fill_eq_descend`,
`fill_fresh`).
-/
namespace StoreMount.Toml.Entries

section
variable {es : Entries} {key other : String} {v w : Value}

@[simp] theorem get?_nil (key : String) : get? [] key = none := rfl

theorem get?_cons (e : String × Value) (es : Entries) (key : String) :
    get? (e :: es) key = if e.1 = key then some e.2 else get? es key := by
  by_cases h : e.1 = key <;> simp [get?, h]

theorem get?_append (es more : Entries) (key : String) :
    get? (es ++ more) key = (get? es key).or (get? more key) := by
  simp [get?, Option.map_or]

theorem get?_add_self (hfree : es.get? key = none) (v : Value) :
    (es.add key v).get? key = some v := by
  simp [add, get?_append, hfree, get?_cons]

theorem get?_add_ne (h : other ≠ key) (v : Value) : (es.add key v).get? other = es.get? other := by
  simp [add, get?_append, get?_cons, Ne.symm h]

theorem get?_set (es : Entries) (key other : String) (v : Value) :
    (es.set key v).get? other = if key = other then (es.get? other).map fun _ =>
      v else es.get? other := by
  induction es with
  | nil => simp [set]
  | cons e es ih =>
    simp only [set, List.map_cons, get?_cons] at ih ⊢
    grind

theorem get?_set_self (hfound : es.get? key = some w) (v : Value) :
    (es.set key v).get? key = some v := by
  simp [get?_set, hfound]

theorem set_set (es : Entries) (key : String) (v w : Value) :
    (es.set key v).set key w = es.set key w := by
  simp only [set, List.map_map]
  refine List.map_congr_left fun e _ => ?_
  by_cases h : e.1 = key <;> simp [h]

theorem set_eq_self (hfree : es.get? key = none) (v : Value) : es.set key v = es := by
  induction es with
  | nil => rfl
  | cons e es ih =>
    rw [get?_cons] at hfree
    split_ifs at hfree with hsame
    rw [set, List.map_cons, if_neg hsame]
    exact congrArg (e :: ·) (ih hfree)

theorem set_add_self (hfree : es.get? key = none) (v w : Value) :
    (es.add key v).set key w = es.add key w := by
  have hkept := set_eq_self hfree w
  simp only [set, add, List.map_append] at hkept ⊢
  simp [hkept]

end

/-! ## Descents -/

theorem descend_append (dotted : Bool) (change : Bool → Entries → Option Entries)
    (keys more : List String) (b : Bool) (es : Entries) : descend dotted change (keys ++ more)
      b es = descend dotted (descend dotted change more) keys b es := by
  induction keys generalizing b es with
  | nil => rfl
  | cons key keys ih => simp only [List.cons_append, descend, ih]

section
variable {change : Bool → Entries → Option Entries} {key : String} {keys : List String}
    {es : Entries}

theorem descend_new (hfree : es.get? key = none) (b : Bool) :
    descend false change (key :: keys) b es
      = (descend false change keys false []).map fun sub => es.add key (.table .implied sub) := by
  simp [descend, hfree]

theorem descend_table {origin : Origin} {sub : Entries}
    (hfound : es.get? key = some (.table origin sub)) (hextensible : origin ≠ .inlined) (b : Bool) :
    descend false change (key :: keys) b es
      = (descend false change keys (origin = .dotted) sub).map fun sub =>
        es.set key (.table origin sub) := by
  rw [descend, hfound]
  cases origin with
  | inlined => exact absurd rfl hextensible
  | implied | dotted | headed => rfl

theorem descend_row {elements : List Value} {origin : Origin} {sub : Entries}
    (hfound : es.get? key = some (.array true elements))
    (hlast : elements.getLast? = some (.table origin sub)) (b : Bool) :
    descend false change (key :: keys) b es
      = (descend false change keys false sub).map fun sub =>
        es.set key (.array true (elements.dropLast ++ [.table origin sub])) := by
  simp [descend, hfound, hlast]

end

theorem descend_bind (first next : Bool → Entries → Option Entries) (keys : List String) (b : Bool)
    (es : Entries) :
    (descend false first keys b es).bind (descend false next keys b)
      = descend false (fun b es => (first b es).bind (next b)) keys b es := by
  induction keys generalizing b es with
  | nil => rfl
  | cons key keys ih =>
    have hclosed (h : ∀ change, descend false change (key :: keys) b es = none) :
        (descend false first (key :: keys) b es).bind (descend false next (key :: keys) b)
          = descend false (fun b es => (first b es).bind (next b)) (key :: keys) b es := by
      rw [h, h, Option.bind_none]
    match hfound : es.get? key with
    | none =>
      rw [descend_new hfound, descend_new hfound, ← ih, Option.bind_map, Option.map_bind]
      congr 1
      funext sub
      simp only [Function.comp_apply]
      rw [descend_table (get?_add_self hfound _) (by decide)]
      simp [set_add_self hfound]
    | some (.table origin sub) =>
      by_cases hinlined : origin = .inlined
      · exact hclosed fun change => by simp [descend, hfound, hinlined]
      · rw [descend_table hfound hinlined, descend_table hfound hinlined, ← ih, Option.bind_map,
          Option.map_bind]
        congr 1
        funext sub'
        simp only [Function.comp_apply]
        rw [descend_table (get?_set_self hfound _) hinlined]
        simp [set_set]
    | some (.array true elements) =>
      match hlast : elements.getLast? with
      | some (.table origin sub) =>
        rw [descend_row hfound hlast, descend_row hfound hlast, ← ih, Option.bind_map,
          Option.map_bind]
        congr 1
        funext sub'
        simp only [Function.comp_apply]
        rw [descend_row (get?_set_self hfound _) List.getLast?_concat]
        simp [set_set]
      | none | some (.string _) | some (.integer _) | some .float | some (.boolean _)
      | some .datetime | some (.array ..) =>
        exact hclosed fun change => by simp [descend, hfound, hlast]
    | some (.string _) | some (.integer _) | some .float | some (.boolean _) | some .datetime
    | some (.array false _) => exact hclosed fun change => by simp [descend, hfound]

theorem descend_foldlM {α : Type} (first : Bool → Entries → Option Entries)
    (next : α → Bool → Entries → Option Entries) (rows : List α) (keys : List String) (b : Bool)
    (es : Entries) :
    (descend false first keys b es).bind
      (rows.foldlM fun es row => descend false (next row) keys b es)
      = descend false (fun b es => (first b es).bind (rows.foldlM fun es row => next row b es))
        keys b es := by
  induction rows generalizing first with
  | nil => simp [List.foldlM_nil]
  | cons row rows ih =>
    simp only [List.foldlM_cons, Option.bind_eq_bind]
    rw [← Option.bind_assoc, descend_bind, ih]
    simp only [Option.bind_assoc]

/-! ## A table under its header -/

theorem bind_fresh {key : String} {es : Entries} (hfree : es.get? key = none) (v : Value) :
    bind [] key v es = some (es.add key v) := by
  simp [bind, descend, hfree]

/-- What a header and the lines under it do to the tables before them. -/
def fill (keys : List String) (last : String) (rows es : Entries) : Option Entries :=
  (es.openTable keys last).bind
    (rows.foldlM fun es row => es.bindUnder (keys ++ [last]) [] row.1 row.2)

theorem fill_eq_descend (keys : List String) (last : String) (rows es : Entries) :
    fill keys last rows es = descend false (fun _ => fill [] last rows) keys false es := by
  simp only [fill, openTable, bindUnder, descend_append, descend_foldlM]
  rfl

theorem bindUnder_add {last : String} {es rows : Entries} (hfree : es.get? last = none)
    {key : String} (hfresh : rows.get? key = none) (v : Value) :
    (es.add last (.table .headed rows)).bindUnder [last] [] key v =
      some (es.add last (.table .headed (rows.add key v))) := by
  rw [bindUnder, descend_table (get?_add_self hfree _) (by decide), descend, bind_fresh hfresh,
    Option.map_some, set_add_self hfree]

theorem get?_eq_none {es : Entries} {key : String} (h : key ∉ es.map Prod.fst) :
    es.get? key = none := by
  simp only [get?, Option.map_eq_none_iff, List.find?_eq_none, decide_eq_true_eq]
  rintro e hheld rfl
  exact h (List.mem_map_of_mem hheld)

theorem foldlM_bindUnder {last : String} {es : Entries} (hfree : es.get? last = none)
    (before : Entries) {rows : Entries} (hdistinct : ((before ++ rows).map Prod.fst).Nodup) :
    rows.foldlM (fun es row => es.bindUnder [last] [] row.1 row.2)
      (es.add last (.table .headed before))
      = some (es.add last (.table .headed (before ++ rows))) := by
  induction rows generalizing before with
  | nil => simp
  | cons row rows ih =>
    have hfresh : row.1 ∉ before.map Prod.fst := by
      rw [List.map_append, List.map_cons, List.nodup_middle, List.nodup_cons] at hdistinct
      exact fun hheld => hdistinct.1 (List.mem_append_left _ hheld)
    rw [List.foldlM_cons, bindUnder_add hfree (get?_eq_none hfresh), Option.bind_eq_bind,
      Option.bind_some]
    simpa [add] using ih (before.add row.1 row.2) (by simpa [add] using hdistinct)

theorem fill_fresh {last : String} {rows es : Entries} (hfree : es.get? last = none)
    (hdistinct : (rows.map Prod.fst).Nodup) :
    fill [] last rows es = some (es.add last (.table .headed rows)) := by
  rw [fill, openTable, descend, hfree, Option.bind_some]
  exact foldlM_bindUnder hfree [] hdistinct

end StoreMount.Toml.Entries
