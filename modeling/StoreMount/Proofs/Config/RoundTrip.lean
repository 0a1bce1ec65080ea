import StoreMount.Config.Document
import StoreMount.Proofs.RawText
import StoreMount.Proofs.Toml.Document

/-!
# The document of a configuration is read back

What is written under a key is read from that key, whatever tables and keys are left out of the
document, and what is left out is as it is by default (`parse_pruned`). With nothing left out, the
document gives the configuration (`parse_render`).
-/
namespace StoreMount

/-! ## Part of a configuration -/

def ServerSettings.blend (kept : String → Bool) (s d : ServerSettings) : ServerSettings where
  portNumber := if kept "port" then s.portNumber else d.portNumber
  mountPoint := if kept "backend_mount_point" then s.mountPoint else d.mountPoint
  userInformationRefresh :=
    if kept "user_information_refresh_time_in_milliseconds" then s.userInformationRefresh
      else d.userInformationRefresh
  fileInformationRefresh :=
    if kept "file_information_refresh_time_in_milliseconds" then s.fileInformationRefresh
      else d.fileInformationRefresh
  userAccessRefresh := if kept "user_access_refresh_time_in_milliseconds" then s.userAccessRefresh
    else d.userAccessRefresh
  objectTypeRefresh := if kept "object_type_refresh_time_in_milliseconds" then s.objectTypeRefresh
    else d.objectTypeRefresh
  userPermissionsRefresh :=
    if kept "user_permissions_refresh_time_in_milliseconds" then s.userPermissionsRefresh
      else d.userPermissionsRefresh
  userTypeRefresh := if kept "user_type_refresh_time_in_milliseconds" then s.userTypeRefresh
    else d.userTypeRefresh
  listingRefresh :=
    if kept "list_operation_query_results_refresh_time_in_milliseconds" then s.listingRefresh
      else d.listingRefresh
  allowListRefresh := if kept "allowlist_refresh_time_in_milliseconds" then s.allowListRefresh
    else d.allowListRefresh
  allowOverwrite := if kept "allow_overwrite_of_existing_files" then s.allowOverwrite
    else d.allowOverwrite

def AdminCredentials.blend (kept : String → Bool) (a d : AdminCredentials) : AdminCredentials where
  username := if kept "username" then a.username else d.username
  password := if kept "password" then a.password else d.password

def BackendSettings.blend (kept : String → Bool) (b d : BackendSettings)
    (admin : AdminCredentials) : BackendSettings where
  host := if kept "host" then b.host else d.host
  portNumber := if kept "port" then b.portNumber else d.portNumber
  zone := if kept "zone" then b.zone else d.zone
  defaultResource := if kept "default_resource" then b.defaultResource else d.defaultResource
  connectionTimeout := if kept "connection_timeout_in_seconds" then b.connectionTimeout
    else d.connectionTimeout
  allowListKey := if kept "allowlist_attribute" then b.allowListKey else d.allowListKey
  admin := admin

/-- A configuration with the fields of one under the keys that are kept, and those of another under
all others. -/
def Config.blend (kept : String → String → Bool) (c d : Config) : Config where
  server := c.server.blend (kept "nfs_server") d.server
  backend := c.backend.blend (kept "backend") d.backend
    (c.backend.admin.blend (kept "backend.proxy_admin_account") d.backend.admin)

namespace Config

open Toml (Value Entries)

/-! ## Scalars -/

def Scalar.value : Scalar → Value
  | .text s => .string s
  | .path p => .string p.text
  | .number n => .integer n
  | .flag b => .boolean b

theorem writeScalar_spells {s : Scalar} (h : s.fits = true) :
    Toml.Spells (writeScalar s) s.value := by
  cases s with
  | text s => simpa [writeScalar, Scalar.value] using Toml.Spells.string s.toList
  | path p => simpa [writeScalar, Scalar.value] using Toml.Spells.string p.text.toList
  | number n =>
    exact .word (fun _ hc => Toml.wordChar_of_decimal (Toml.Scalar.decimal_of_mem_render hc))
      (Toml.Scalar.ofWord?_render (of_decide_eq_true h))
  | flag b =>
    have hletters : (writeScalar (.flag b)).all Toml.wordChar = true := by cases b <;> rfl
    exact .word (List.all_eq_true.1 hletters) (Toml.Scalar.ofWord?_flag b)

/-! ## Sections -/

def place (name : String) : List String × String :=
  if name = "backend.proxy_admin_account" then (["backend"], "proxy_admin_account") else ([], name)

def rows (s : Section) : Entries := s.2.map fun row => (row.1, row.2.value)

theorem keys_rows (s : Section) : (rows s).map Prod.fst = s.2.map Prod.fst := by
  simp [rows]

/-- A section that can be read back. -/
structure Readable (s : Section) : Prop where
  name : s.1.toList = Toml.dotted ((place s.1).1 ++ [(place s.1).2])
  bareName : ∀ key ∈ (place s.1).1 ++ [(place s.1).2], Toml.bare key = true
  shallow : (place s.1).1.length < Toml.nestingLimit
  bareKeys : ∀ row ∈ s.2, Toml.bare row.1 = true
  fits : ∀ row ∈ s.2, row.2.fits = true

theorem writeSection_eq {s : Section} (h : Readable s) :
    writeSection s = Toml.headline ((place s.1).1 ++ [(place s.1).2])
      ++ s.2.flatMap fun row => Toml.line row.1 (writeScalar row.2) := by
  simp [writeSection, Toml.headline, Toml.line, ← h.name]

def fill (es : Entries) (s : Section) : Option Entries :=
  Entries.fill (place s.1).1 (place s.1).2 (rows s) es

theorem reads_writeSections {doc : List Section} (h : ∀ s ∈ doc, Readable s) {es es' : Entries}
    (hfill : doc.foldlM fill es = some es')
    (header : List String) : ∃ header',
      Toml.Reads ⟨es, header⟩ (writeSections doc) ⟨es', header'⟩ := by
  induction doc generalizing es header with
  | nil =>
    cases hfill
    exact ⟨header, .nil _⟩
  | cons s doc ih =>
    rw [List.foldlM_cons, Option.bind_eq_bind, Option.bind_eq_some_iff] at hfill
    obtain ⟨es₁, hfirst, hothers⟩ := hfill
    have hreadable := h s List.mem_cons_self
    obtain ⟨header', hafter⟩ :=
      ih (fun t ht => h t (List.mem_cons_of_mem _ ht)) hothers ((place s.1).1 ++ [(place s.1).2])
    refine ⟨header', ?_⟩
    have htable {rest : List Char}
        (h : Toml.Reads ⟨es₁, (place s.1).1 ++ [(place s.1).2]⟩ rest ⟨es', header'⟩) :
        Toml.Reads ⟨es, header⟩ (writeSection s ++ rest) ⟨es', header'⟩ := by
      rw [writeSection_eq hreadable, List.append_assoc]
      exact Toml.reads_table hreadable.bareName hreadable.shallow hreadable.bareKeys
        (fun row hrow => writeScalar_spells (hreadable.fits row hrow)) hfirst h
    cases doc with
    | nil =>
      rw [writeSections, ← List.append_nil (writeSection s)]
      exact htable hafter
    | cons t doc => exact htable hafter.blankLine

theorem read_writeSections {doc : List Section} (h : ∀ s ∈ doc, Readable s) {es : Entries}
    (hfill : doc.foldlM fill [] = some es) :
    Toml.read (String.ofList (writeSections doc)) = some es := by
  obtain ⟨header, hreads⟩ := reads_writeSections h hfill []
  refine Toml.read_of_reads ?_ (by rwa [String.toList_ofList])
  rw [String.toList_ofList]
  match doc with
  | [] => simp [writeSections]
  | [s] => simp [writeSections, writeSection]
  | s :: t :: doc => simp [writeSections, writeSection]

def layout : List (String × List String) := (sections default).map fun s => (s.1, s.2.map Prod.fst)

theorem layout_sections (c : Config) :
    (sections c).map (fun s => (s.1, s.2.map Prod.fst)) = layout := rfl

theorem layout_readable : ∀ t ∈ layout, t.1.toList = Toml.dotted ((place t.1).1 ++ [(place t.1).2])
    ∧ (∀ key ∈ (place t.1).1 ++ [(place t.1).2], Toml.bare key = true) ∧
      (place t.1).1.length < Toml.nestingLimit
    ∧ (∀ key ∈ t.2, Toml.bare key = true) ∧ t.2.Nodup := by
  decide +kernel

def longNumbers (c : Config) : List Nat :=
  [c.server.userInformationRefresh, c.server.fileInformationRefresh, c.server.userAccessRefresh,
   c.server.objectTypeRefresh, c.server.userPermissionsRefresh, c.server.userTypeRefresh,
   c.server.listingRefresh, c.server.allowListRefresh, c.backend.connectionTimeout]

theorem writable_iff {c : Config} : writable c = true ↔
    (∀ n ∈ c.longNumbers, n < Word.signedBound64) ∧ c.server.mountPoint.raw.text? ≠ none := by
  have hport (n : UInt16) : n.toNat < Word.signedBound64 := Nat.lt_trans n.toNat_lt (by decide)
  rw [and_comm]
  simp only [writable, sections, longNumbers, List.all_cons, List.all_nil, List.forall_mem_cons,
    Scalar.fits, hport, decide_true, Bool.and_true, Bool.true_and, Bool.and_eq_true,
    decide_eq_true_eq, Option.isSome_iff_ne_none, and_assoc, List.not_mem_nil, false_implies,
    implies_true, and_true]

theorem sections_readable {c : Config} (h : writable c = true) : ∀ s ∈ sections c, Readable s := by
  intro s hs
  have hknown : (s.1, s.2.map Prod.fst) ∈ layout := layout_sections c ▸ List.mem_map_of_mem hs
  obtain ⟨hname, hbareName, hshallow, hbareKeys, -⟩ := layout_readable _ hknown
  rw [writable, List.all_eq_true] at h
  exact ⟨hname, hbareName, hshallow,
    fun row hrow => hbareKeys _ (List.mem_map_of_mem hrow), List.all_eq_true.1 (h s hs)⟩

theorem sections_distinct {c : Config} : ∀ s ∈ sections c, (s.2.map Prod.fst).Nodup := by
  intro s hs
  have hknown : (s.1, s.2.map Prod.fst) ∈ layout := layout_sections c ▸ List.mem_map_of_mem hs
  exact (layout_readable _ hknown).2.2.2.2

/-! ## What is left of a document -/

/-- The document without the tables that are not kept, and in the others without the keys that are
not kept. -/
def prune (keepTable : String → Bool) (keepKey : String → String → Bool) (doc : List Section) :
    List Section :=
  (doc.filter fun s => keepTable s.1).map fun s => (s.1, s.2.filter fun row => keepKey s.1 row.1)

theorem prune_readable {keepTable : String → Bool} {keepKey : String → String → Bool}
    {doc : List Section} (h : ∀ s ∈ doc, Readable s) :
    ∀ s ∈ prune keepTable keepKey doc, Readable s := by
  intro s hs
  simp only [prune, List.mem_map, List.mem_filter] at hs
  obtain ⟨t, ⟨ht, -⟩, rfl⟩ := hs
  have hwhole := h t ht
  exact ⟨hwhole.name, hwhole.bareName, hwhole.shallow,
    fun row hrow => hwhole.bareKeys row (List.mem_filter.1 hrow).1,
    fun row hrow => hwhole.fits row (List.mem_filter.1 hrow).1⟩

def row? (doc : List Section) (table key : String) : Option Scalar :=
  (doc.find? fun s => s.1 = table).bind fun s => (s.2.find? fun row => row.1 = key).map Prod.snd

def written? (c : Config) (table key : String) : Option Scalar := row? (sections c) table key

/-! ## Fields -/

theorem field_kept {α : Type} {b : Bool} {v : Value} {x : α} {read : Value → Option α}
    (h : read v = some x) (d : α) :
    field (if b then some v else none) d read = some (if b then x else d) := by
  cases b with
  | false => rfl
  | true => exact h

theorem word16?_toNat (n : UInt16) : word16? (.integer n.toNat) = some n := by
  have hsmall : (n.toNat : Int) < Word.bound16 := Int.ofNat_lt.2 n.toNat_lt
  rw [word16?, natural?, if_pos ⟨Int.natCast_nonneg _, hsmall⟩, Option.map_some]
  simp

theorem word64?_natCast {n : Nat} (h : n < Word.signedBound64) : word64? (.integer n) = some n := by
  have hsmall : (n : Int) < Word.bound64 := Int.ofNat_lt.2 (Nat.lt_trans h (by decide))
  rw [word64?, natural?, if_pos ⟨Int.natCast_nonneg _, hsmall⟩, Int.toNat_natCast]

theorem path?_text {p : Path} (h : p.raw.text?.isSome = true) :
    path? (.string p.text) = some p := by
  obtain ⟨t, ht⟩ := Option.isSome_iff_exists.1 h
  obtain ⟨raw⟩ := p
  obtain rfl := RawText.text?_eq_some_iff.1 ht
  simp [path?, string?, Path.text]

section
variable {c : Config} {table : String}

theorem fits_of_written? (h : writable c = true) {key : String} {s : Scalar}
    (hw : written? c table key = some s) :
    s.fits = true := by
  simp only [written?, row?, Option.bind_eq_some_iff, Option.map_eq_some_iff] at hw
  obtain ⟨t, ht, row, hrow, rfl⟩ := hw
  exact (sections_readable h t (List.mem_of_find?_eq_some ht)).fits row
    (List.mem_of_find?_eq_some hrow)

variable {kept : String → Bool} {es : Entries}

/-- A table that has what was written under the keys that are kept, and nothing under the others of
its keys. -/
def Holds (c : Config) (table : String) (kept : String → Bool) (es : Entries) : Prop :=
  ∀ key s, written? c table key = some s → es.get? key = if kept key then some s.value else none

theorem Holds.field (hholds : Holds c table kept es) {key : String} {s : Scalar}
    (hw : written? c table key = some s) {α : Type} {read : Value → Option α} {x : α}
    (h : read s.value = some x) (d : α) :
    field (es.get? key) d read = some (if kept key then x else d) := by
  rw [hholds key s hw]
  exact field_kept h d

theorem Holds.text (hholds : Holds c table kept es) (key : String) {x : String}
    (hw : written? c table key = some (.text x)) (d : String) :
    Config.field (es.get? key) d string? = some (if kept key then x else d) :=
  have hread : string? (Scalar.text x).value = some x := rfl
  hholds.field hw hread d

theorem Holds.path (hholds : Holds c table kept es) (h : writable c = true) (key : String)
    {x : Path} (hw : written? c table key = some (.path x)) (d : Path) :
    Config.field (es.get? key) d path? = some (if kept key then x else d) :=
  hholds.field hw (path?_text (fits_of_written? h hw)) d

theorem Holds.flag (hholds : Holds c table kept es) (key : String) {x : Bool}
    (hw : written? c table key = some (.flag x)) (d : Bool) :
    Config.field (es.get? key) d boolean? = some (if kept key then x else d) :=
  have hread : boolean? (Scalar.flag x).value = some x := rfl
  hholds.field hw hread d

theorem Holds.word16 (hholds : Holds c table kept es) (key : String) {x : UInt16}
    (hw : written? c table key = some (.number x.toNat)) (d : UInt16) :
    Config.field (es.get? key) d word16? = some (if kept key then x else d) :=
  hholds.field hw (word16?_toNat x) d

theorem Holds.word64 (hholds : Holds c table kept es) (h : writable c = true) (key : String)
    {x : Nat} (hw : written? c table key = some (.number x)) (d : Nat) :
    Config.field (es.get? key) d word64? = some (if kept key then x else d) :=
  hholds.field hw (word64?_natCast (of_decide_eq_true (fits_of_written? h hw))) d

variable {o : Toml.Origin}

theorem server?_held (h : writable c = true) (hholds : Holds c "nfs_server" kept es) :
    server? (.table o es) = some (c.server.blend kept .default) := by
  simp only [server?, fieldsOf?, Option.bind_eq_bind, Option.bind_some]
  rw [hholds.word16 "port" rfl, hholds.path h "backend_mount_point" rfl,
    hholds.word64 h "user_information_refresh_time_in_milliseconds" rfl,
    hholds.word64 h "file_information_refresh_time_in_milliseconds" rfl,
    hholds.word64 h "user_access_refresh_time_in_milliseconds" rfl,
    hholds.word64 h "object_type_refresh_time_in_milliseconds" rfl,
    hholds.word64 h "user_permissions_refresh_time_in_milliseconds" rfl,
    hholds.word64 h "user_type_refresh_time_in_milliseconds" rfl,
    hholds.word64 h "list_operation_query_results_refresh_time_in_milliseconds" rfl,
    hholds.word64 h "allowlist_refresh_time_in_milliseconds" rfl,
    hholds.flag "allow_overwrite_of_existing_files" rfl]
  rfl

theorem admin?_held (hholds : Holds c "backend.proxy_admin_account" kept es) :
    admin? (.table o es) = some (c.backend.admin.blend kept .default) := by
  simp only [admin?, fieldsOf?, Option.bind_eq_bind, Option.bind_some]
  rw [hholds.text "username" rfl, hholds.text "password" rfl]
  rfl

theorem backend?_held (h : writable c = true) (hholds : Holds c "backend" kept es)
    {admin : AdminCredentials}
    (hadmin : field (es.get? "proxy_admin_account") AdminCredentials.default admin? = some admin) :
    backend? (.table o es) = some (c.backend.blend kept .default admin) := by
  simp only [backend?, fieldsOf?, Option.bind_eq_bind, Option.bind_some]
  rw [hholds.text "host" rfl, hholds.word16 "port" rfl, hholds.text "zone" rfl,
    hholds.text "default_resource" rfl, hholds.word64 h "connection_timeout_in_seconds" rfl,
    hholds.text "allowlist_attribute" rfl]
  simp only [Option.bind_some, BackendSettings.default, hadmin]
  rfl

end

/-! ## Tables -/

theorem get?_rows (name : String) (rs : List (String × Scalar)) (kept : String → Bool)
    (key : String) :
    Entries.get? (rows (name, rs.filter fun row => kept row.1)) key
      = if kept key then ((rs.find? fun row => row.1 = key).map Prod.snd).map Scalar.value
        else none := by
  induction rs with
  | nil => simp [rows]
  | cons row rs ih =>
    simp only [rows] at ih ⊢
    by_cases hsame : row.1 = key <;> by_cases hkeep : kept row.1 <;> simp_all [Entries.get?_cons]

theorem fill_top {name : String} (htop : name ≠ "backend.proxy_admin_account")
    {es : Entries} (hfree : es.get? name = none) {rs : List (String × Scalar)}
    (hdistinct : (rs.map Prod.fst).Nodup) :
    fill es (name, rs) = some (es.add name (.table .headed (rows (name, rs)))) := by
  rw [fill, place, if_neg htop]
  exact Entries.fill_fresh hfree (keys_rows _ ▸ hdistinct)

section
variable {es : Entries} {rs : List (String × Scalar)} (hdistinct : (rs.map Prod.fst).Nodup)
include hdistinct

theorem fill_account_alone (hfree : es.get? "backend" = none) :
    fill es ("backend.proxy_admin_account", rs) = some (es.add "backend" (.table .implied
      [("proxy_admin_account", .table .headed (rows ("backend.proxy_admin_account", rs)))])) := by
  rw [fill, Entries.fill_eq_descend]
  refine (Entries.descend_new hfree false).trans ?_
  rw [Entries.descend]
  exact congrArg _ (Entries.fill_fresh (Entries.get?_nil _) (keys_rows _ ▸ hdistinct))

theorem fill_account_below {sub : Entries} (hfound : es.get? "backend" = some (.table .headed sub))
    (hfree : sub.get? "proxy_admin_account" = none) :
    fill es ("backend.proxy_admin_account", rs) = some (es.set "backend" (.table .headed
      (sub.add "proxy_admin_account"
        (.table .headed (rows ("backend.proxy_admin_account", rs)))))) := by
  rw [fill, Entries.fill_eq_descend]
  refine (Entries.descend_table hfound (by decide) false).trans ?_
  rw [Entries.descend]
  exact congrArg _ (Entries.fill_fresh hfree (keys_rows _ ▸ hdistinct))

end

theorem Holds.nil (c : Config) (table : String) : Holds c table (fun _ => false) [] :=
  fun _ _ _ => rfl

theorem Holds.add {c : Config} {table : String} {kept : String → Bool} {es : Entries}
    (hholds : Holds c table kept es) {key : String} (hother : written? c table key = none)
    (v : Value) : Holds c table kept (es.add key v) := by
  intro k s hw
  have hne : k ≠ key := by
    rintro rfl
    rw [hw] at hother
    cases hother
  rw [Entries.get?_add_ne hne]
  exact hholds k s hw

section
variable {c : Config} (keepTable : String → Bool) (keepKey : String → String → Bool)

def Lists (c : Config) (name : String) (rs : List (String × Scalar)) : Prop :=
  (sections c).find? (fun s => s.1 = name) = some (name, rs)

section
variable {name : String} {rs : List (String × Scalar)} (hlisted : Lists c name rs)
    (kept : String → Bool)
include hlisted

theorem Lists.distinct : ((rs.filter fun row => kept row.1).map Prod.fst).Nodup :=
  (sections_distinct _ (List.mem_of_find?_eq_some hlisted)).sublist (List.filter_sublist.map _)

theorem Lists.get?_rows (key : String) :
    Entries.get? (rows (name, rs.filter fun row => kept row.1)) key
    = if kept key then (written? c name key).map Scalar.value else none := by
  rw [written?, row?, hlisted, Option.bind_some, Config.get?_rows]

theorem Lists.held : Holds c name kept (rows (name, rs.filter fun row => kept row.1)) := by
  intro key x hw
  rw [hlisted.get?_rows, hw, Option.map_some]

end

theorem backend_filled (h : writable c = true) {es : Entries} (hfree : es.get? "backend" = none)
    {rs as : List (String × Scalar)} (hbackend : Lists c "backend" rs)
    (haccount : Lists c "backend.proxy_admin_account" as) :
    ∃ es', (prune keepTable keepKey [("backend", rs), ("backend.proxy_admin_account", as)]).foldlM
      fill es = some es'
      ∧ es'.get? "nfs_server" = es.get? "nfs_server"
      ∧ field (es'.get? "backend") BackendSettings.default backend?
        = some (blend (fun table key => keepTable table && keepKey table key)
          c default).backend := by
  have hfirst := fill_top (by decide) hfree (hbackend.distinct (keepKey "backend"))
  have haccountDistinct := haccount.distinct (keepKey "backend.proxy_admin_account")
  have hadmin := admin?_held (o := .headed) (haccount.held (keepKey "backend.proxy_admin_account"))
  have hunnamed : Entries.get? (rows ("backend", rs.filter fun row => keepKey "backend" row.1))
      "proxy_admin_account" = none := by
    rw [hbackend.get?_rows]
    exact ite_self none
  match hb : keepTable "backend", ha : keepTable "backend.proxy_admin_account" with
  | false, false =>
    refine ⟨es, by simp [prune, hb, ha], rfl, ?_⟩
    simp only [hfree, blend, hb, ha, Bool.false_and]
    rfl
  -- the account's header alone brings a table that holds nothing but the account
  | false, true =>
    have hfill := fill_account_alone haccountDistinct hfree
    refine ⟨_, by simp [prune, hb, ha]; exact hfill, Entries.get?_add_ne (by decide) _, ?_⟩
    rw [Entries.get?_add_self hfree]
    simp only [blend, hb, ha, Bool.false_and, Bool.true_and]
    exact backend?_held h ((Holds.nil c "backend").add rfl _) hadmin
  | true, false =>
    refine ⟨_, by simp [prune, hb, ha]; exact hfirst, Entries.get?_add_ne (by decide) _, ?_⟩
    rw [Entries.get?_add_self hfree]
    simp only [blend, hb, ha, Bool.false_and, Bool.true_and]
    refine backend?_held h (hbackend.held _) ?_
    rw [hunnamed]
    rfl
  | true, true =>
    have hsecond := fill_account_below haccountDistinct (Entries.get?_add_self hfree _) hunnamed
    rw [Entries.set_add_self hfree] at hsecond
    refine ⟨_, by simp [prune, hb, ha, hfirst]; exact hsecond,
      Entries.get?_add_ne (by decide) _, ?_⟩
    rw [Entries.get?_add_self hfree]
    simp only [blend, hb, ha, Bool.true_and]
    refine backend?_held h ((hbackend.held _).add rfl _) ?_
    rw [Entries.get?_add_self hunnamed]
    exact hadmin

theorem all_filled (h : writable c = true) :
    ∃ es, (prune keepTable keepKey (sections c)).foldlM fill [] = some es
      ∧ field (es.get? "nfs_server") ServerSettings.default server?
        = some (blend (fun table key => keepTable table && keepKey table key) c default).server
      ∧ field (es.get? "backend") BackendSettings.default backend?
        = some (blend (fun table key => keepTable table && keepKey table key)
          c default).backend := by
  obtain ⟨ss, rs, as, hsections⟩ : ∃ ss rs as, sections c
      = [("nfs_server", ss), ("backend", rs), ("backend.proxy_admin_account", as)] := ⟨_, _, _, rfl⟩
  have hserver : Lists c "nfs_server" ss := by rw [Lists, hsections]; rfl
  have hbackend : Lists c "backend" rs := by rw [Lists, hsections]; rfl
  have haccount : Lists c "backend.proxy_admin_account" as := by rw [Lists, hsections]; rfl
  rw [hsections]
  match hs : keepTable "nfs_server" with
  | false =>
    obtain ⟨es, hfill, hsame, hread⟩ :=
      backend_filled keepTable keepKey h (Entries.get?_nil "backend") hbackend haccount
    refine ⟨es, by simpa [prune, List.filter_cons, hs] using hfill, ?_, hread⟩
    simp only [hsame, blend, hs, Bool.false_and]
    rfl
  | true =>
    have hfirst :=
      fill_top (by decide) (Entries.get?_nil "nfs_server") (hserver.distinct (keepKey "nfs_server"))
    have hfree (v : Value) : (Entries.add [] "nfs_server" v).get? "backend" = none :=
      Entries.get?_add_ne (by decide) v
    obtain ⟨es, hfill, hsame, hread⟩ :=
      backend_filled keepTable keepKey h (hfree _) hbackend haccount
    refine ⟨es, ?_, ?_, hread⟩
    · have hfront : prune keepTable keepKey
          [("nfs_server", ss), ("backend", rs), ("backend.proxy_admin_account", as)]
          = ("nfs_server", ss.filter fun row => keepKey "nfs_server" row.1)
            :: prune keepTable keepKey [("backend", rs), ("backend.proxy_admin_account", as)] := by
        simp [prune, List.filter_cons, hs]
      rw [hfront, List.foldlM_cons, hfirst]
      exact hfill
    · rw [hsame, Entries.get?_add_self (Entries.get?_nil _)]
      simp only [blend, hs, Bool.true_and]
      exact server?_held h (hserver.held _)

/-- Whatever is left out of the document, it is read: what is kept as it was written, the rest as it
is by default. -/
theorem parse_pruned (h : writable c = true) :
    parse (String.ofList (writeSections (prune keepTable keepKey (sections c))))
      = some (blend (fun table key => keepTable table && keepKey table key) c default) := by
  obtain ⟨es, hfill, hserver, hbackend⟩ := all_filled keepTable keepKey h
  rw [parse, read_writeSections (prune_readable (sections_readable h)) hfill, Option.bind_some]
  simp [ofValue?, fieldsOf?, hserver, hbackend]

end

theorem parse_render {c : Config} {text : String} (h : render? c = some text) :
    parse text = some c := by
  rw [render?, Option.ite_none_right_eq_some] at h
  obtain ⟨hwritable, hwritten⟩ := h
  have hwhole : prune (fun _ => true) (fun _ _ => true) (sections c) = sections c := by simp [prune]
  have hread := parse_pruned (fun _ => true) (fun _ _ => true) hwritable
  rw [hwhole] at hread
  rw [← Option.some.inj hwritten, hread]
  rfl

/-! ## What is under a key -/

def overlayRows (kept : String → Bool) (rs rs' : List (String × Scalar)) : List (String × Scalar) :=
  List.zipWith (fun a b => (a.1, if kept a.1 then a.2 else b.2)) rs rs'

def overlay (kept : String → String → Bool) (doc doc' : List Section) : List Section :=
  List.zipWith (fun s t => (s.1, overlayRows (kept s.1) s.2 t.2)) doc doc'

theorem find?_overlayRows (kept : String → Bool) {rs rs' : List (String × Scalar)}
    (hsame : rs.map Prod.fst = rs'.map Prod.fst) (key : String) :
    ((overlayRows kept rs rs').find? fun row => row.1 = key).map Prod.snd
      = ((if kept key then rs else rs').find? fun row => row.1 = key).map Prod.snd := by
  induction rs generalizing rs' with
  | nil =>
    obtain rfl := List.map_eq_nil_iff.1 hsame.symm
    simp [overlayRows]
  | cons row rs ih =>
    obtain ⟨row', rs', rfl, hfirst, hothers⟩ := List.map_eq_cons_iff.1 hsame.symm
    have ih := ih hothers.symm
    rw [overlayRows, List.zipWith_cons_cons]
    by_cases hkey : row.1 = key
    · by_cases hkeep : kept key <;> simp [hkey, hfirst, hkeep]
    · by_cases hkeep : kept key <;> simpa [hkey, hfirst, hkeep, overlayRows] using ih

theorem row?_overlay (kept : String → String → Bool) {doc doc' : List Section}
    (hsame : doc.map (fun s => (s.1, s.2.map Prod.fst)) =
      doc'.map (fun s => (s.1, s.2.map Prod.fst))) (table key : String) :
    row? (overlay kept doc doc') table key =
      row? (if kept table key then doc else doc') table key := by
  induction doc generalizing doc' with
  | nil =>
    obtain rfl := List.map_eq_nil_iff.1 hsame.symm
    simp [overlay]
  | cons s doc ih =>
    obtain ⟨t, doc', rfl, hfirst, hothers⟩ := List.map_eq_cons_iff.1 hsame.symm
    obtain ⟨hname, hkeys⟩ := Prod.mk.inj hfirst
    have ih := ih hothers.symm
    rw [overlay, List.zipWith_cons_cons]
    by_cases htable : s.1 = table
    · have hrows := find?_overlayRows (kept table) hkeys.symm key
      by_cases hkeep : kept table key <;> simpa [row?, htable, hname, hkeep] using hrows
    · by_cases hkeep : kept table key <;> simpa [row?, htable, hname, hkeep, overlay] using ih

theorem sections_blend (kept : String → String → Bool) (c d : Config) :
    sections (blend kept c d) = overlay kept (sections c) (sections d) := by
  simp [sections, overlay, overlayRows, blend, ServerSettings.blend, BackendSettings.blend,
    AdminCredentials.blend, apply_ite Scalar.number, apply_ite Scalar.text, apply_ite Scalar.flag,
    apply_ite Scalar.path, apply_ite UInt16.toNat]

theorem written?_blend (kept : String → String → Bool) (c d : Config) (table key : String) :
    written? (blend kept c d) table key = written? (if kept table key then c else d) table key := by
  have hsame := (layout_sections c).trans (layout_sections d).symm
  rw [written?, sections_blend, row?_overlay kept hsame]
  split <;> rfl

theorem eq_of_written? {c d : Config}
    (h : ∀ table key, written? c table key = written? d table key) : c = d := by
  have hknown : ∀ t ∈ layout, ∀ key ∈ t.2, written? c t.1 key = written? d t.1 key :=
    fun t _ key _ => h t.1 key
  obtain ⟨⟨_, ⟨_⟩, _, _, _, _, _, _, _, _, _⟩, ⟨_, _, _, _, _, _, ⟨_, _⟩⟩⟩ := c
  obtain ⟨⟨_, ⟨_⟩, _, _, _, _, _, _, _, _, _⟩, ⟨_, _, _, _, _, _, ⟨_, _⟩⟩⟩ := d
  simp [layout, written?, row?, sections, UInt16.toNat_inj] at hknown
  simp [hknown]

end Config
end StoreMount
