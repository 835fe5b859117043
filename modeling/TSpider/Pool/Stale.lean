import TSpider.Pool.Keys

/-!
# Stale connections

A connection of the pool was opened with the definition that its server has now (`NeverStale`). This holds along every run in
which no name comes back to the server cache after it has left it (`Steady`): then the version of a name only grows, it grows
when the definition changes (`Evolves`), and the key of a share has the version of the cache when it is used. A name that
comes back starts with version 0 again.
-/

namespace TSpider.Pool
open Lib Servers State Option

/-! ## Searching -/

theorem search_eq_some {l : List Server} {name : Text} {x : Server} (h : search l name = some x) : x ∈ l ∧ x.name = name :=
  ⟨List.mem_of_find?_eq_some h, by simpa using List.find?_some h⟩

theorem search_eq_none {l : List Server} {name : Text} : search l name = none ↔ ∀ x ∈ l, x.name ≠ name := by
  simp [search]

theorem search_of_mem {l : List Server} (hl : (l.map (·.name)).Nodup) {x : Server} (hx : x ∈ l) :
    search l x.name = some x := by
  cases h : search l x.name with
  | none => exact absurd rfl (search_eq_none.mp h x hx)
  | some y =>
    obtain ⟨hy, hname⟩ := search_eq_some h
    rw [List.inj_on_of_nodup_map hl hy hx hname]

theorem nodup_append_server {l : List Server} (hl : (l.map (·.name)).Nodup) {x : Server} (hx : ∀ y ∈ l, y.name ≠ x.name) :
    ((l ++ [x]).map (·.name)).Nodup := by
  rw [List.map_append]
  refine List.Nodup.append hl (by simp) fun n hn hn' => ?_
  obtain ⟨y, hy, rfl⟩ := List.mem_map.mp hn
  exact hx y hy (by simpa using hn')

/-! ## Servers -/

structure Servers.Tidy (s : Servers) (known : List Text) : Prop where
  rows : (s.rows.map (·.1)).Nodup
  cache : (s.cache.map (·.name)).Nodup
  cacheKnown : ∀ x ∈ s.cache, x.name ∈ known
  /-- The copy that a failed reload leaves has no name of the cache. -/
  bak : ∀ b ∈ s.bak, b.name ∈ known ∧ ∀ x ∈ s.cache, x.name ≠ b.name
  first : s.modifyVersion = 0 → ∀ x ∈ s.cache, x.version = 0

theorem Servers.Tidy.mono {s : Servers} {known known' : List Text} (hs : s.Tidy known) (h : known ⊆ known') : s.Tidy known' :=
  ⟨hs.rows, hs.cache, fun x hx => h (hs.cacheKnown x hx), fun b hb => ⟨h (hs.bak b hb).1, (hs.bak b hb).2⟩, hs.first⟩

theorem Servers.Tidy.setRows {s : Servers} {known : List Text} (hs : s.Tidy known) {rows : List Row}
    (h : (rows.map (·.1)).Nodup) :
    { s with rows := rows }.Tidy known :=
  ⟨h, hs.cache, hs.cacheKnown, hs.bak, hs.first⟩

/-- A version grows when the definition changes, and the global version grows with it; the other names are new. -/
structure Evolves (known : List Text) (s t : Servers) : Prop where
  modify : s.modifyVersion ≤ t.modifyVersion
  server : ∀ y ∈ t.cache,
    (∃ x ∈ s.cache, x.name = y.name ∧ x.version ≤ y.version ∧ (x.version = y.version → x.info = y.info) ∧
      (t.modifyVersion = s.modifyVersion → x.version = y.version)) ∨
    (y.name ∉ known ∧ y.version = 0)

def Advances (known : List Text) (s t : Servers) : Prop := Evolves known s t ∧ t.Tidy (t.cache.map (·.name) ++ known)

def Servers.RowsNew (s : Servers) (known : List Text) : Prop :=
  ∀ r ∈ s.rows, (search s.cache r.1).isSome ∨ r.1 ∉ known

namespace Evolves
variable {known : List Text} {s t u : Servers}

theorem of_subset (hmodify : t.modifyVersion = s.modifyVersion) (h : ∀ y ∈ t.cache, y ∈ s.cache) : Evolves known s t :=
  ⟨hmodify.ge, fun y hy => .inl ⟨y, h y hy, rfl, le_rfl, fun _ => rfl, fun _ => rfl⟩⟩

theorem trans (hst : Evolves known s t) (htu : Evolves known t u) (ht : ∀ x ∈ t.cache, x.name ∈ known) :
    Evolves known s u := by
  refine ⟨hst.modify.trans htu.modify, fun z hz => ?_⟩
  obtain ⟨y, hy, hname, hle, hinfo, hmodify⟩ | hnew := htu.server z hz
  · obtain ⟨x, hx, hname', hle', hinfo', hmodify'⟩ | hnew := hst.server y hy
    · refine .inl ⟨x, hx, hname'.trans hname, hle'.trans hle, fun h => ?_, fun h => ?_⟩
      · have hxy : x.version = y.version := by omega
        exact (hinfo' hxy).trans (hinfo (by omega))
      · have := hst.modify
        have := htu.modify
        exact (hmodify' (by omega)).trans (hmodify (by omega))
    · exact absurd (ht y hy) hnew.1
  · exact .inr hnew

theorem first (h : Evolves known s t) (hs : s.modifyVersion = 0 → ∀ x ∈ s.cache, x.version = 0) :
    t.modifyVersion = 0 → ∀ y ∈ t.cache, y.version = 0 := by
  intro ht y hy
  have hle := h.modify
  obtain ⟨x, hx, -, -, -, hmodify⟩ | hnew := h.server y hy
  · rw [← hmodify (by omega)]
    exact hs (by omega) x hx
  · exact hnew.2

end Evolves

section Load
variable {s : Servers} {known : List Text}

theorem Servers.Tidy.advances (hs : s.Tidy known) {rows : List Row} (h : (rows.map (·.1)).Nodup) :
    Advances known s { s with rows := rows } :=
  ⟨.of_subset rfl fun _ hy => hy, (hs.setRows h).mono (List.subset_append_right _ _)⟩

theorem updateVersion_cases (hs : s.Tidy known) {r : Row} (hr : (search s.cache r.1).isSome ∨ r.1 ∉ known) :
    (∃ x ∈ s.cache, x.name = r.1 ∧ search (s.bak ++ s.cache) r.1 = some x) ∨
    (r.1 ∉ known ∧ updateVersion (s.bak ++ s.cache) r = ⟨r.1, r.2, 0⟩) := by
  have happend : search (s.bak ++ s.cache) r.1 = (search s.bak r.1).or (search s.cache r.1) := List.find?_append
  obtain h | h := hr
  · obtain ⟨x, hx⟩ := isSome_iff_exists.mp h
    obtain ⟨hmem, hname⟩ := search_eq_some hx
    have hbak : search s.bak r.1 = none :=
      search_eq_none.mpr fun b hb hb' => (hs.bak b hb).2 x hmem (hname.trans hb'.symm)
    rw [hbak, hx] at happend
    exact .inl ⟨x, hmem, hname, happend⟩
  · have hbak : search s.bak r.1 = none := search_eq_none.mpr fun b hb hb' => h (hb' ▸ (hs.bak b hb).1)
    have hcache : search s.cache r.1 = none := search_eq_none.mpr fun x hx hx' => h (hx' ▸ hs.cacheKnown x hx)
    rw [hbak, hcache] at happend
    refine .inr ⟨h, ?_⟩
    rw [updateVersion, happend]
    rfl

theorem load_ok_evolves (hs : s.Tidy known) (hrows : s.RowsNew known) : Evolves known s (s.load .ok) := by
  refine ⟨?_, fun y hy => ?_⟩
  · simp only [load]
    split_ifs <;> omega
  · obtain ⟨r, hr, rfl⟩ := List.mem_map.mp hy
    obtain ⟨x, hx, hname, hfound⟩ | ⟨hnew, heq⟩ := updateVersion_cases hs (hrows r hr)
    · refine .inl ⟨x, hx, ?_⟩
      by_cases hinfo : x.info = r.2
      · simp [updateVersion, hfound, hinfo, hname]
      · have hupdated : versionUpdated (s.bak ++ s.cache) s.rows = true :=
          List.any_eq_true.mpr ⟨r, hr, by simp [hfound, hinfo]⟩
        simp [updateVersion, hfound, hinfo, hname, load, hupdated]
    · rw [heq]
      exact .inr ⟨hnew, rfl⟩

theorem updateVersion_name (bak : List Server) (r : Row) : (updateVersion bak r).name = r.1 := by
  unfold updateVersion
  split <;> rfl

theorem load_spec (hs : s.Tidy known) {e : LoadEnd} (he : ∀ k, e ≠ .atRow k) (hrows : e = .ok → s.RowsNew known) :
    Advances known s (s.load e) := by
  cases e with
  | ok =>
    have hevolves := load_ok_evolves hs (hrows rfl)
    refine ⟨hevolves, hs.rows, ?_, fun x hx => List.mem_append_left _ (List.mem_map_of_mem hx), by simp [load],
      hevolves.first hs.first⟩
    simpa [load, Function.comp_def, updateVersion_name] using hs.rows
  | noScan =>
    refine ⟨.of_subset rfl (by simp [load]), hs.rows, by simp [load], by simp [load], ?_, by simp [load]⟩
    intro b hb
    obtain hb | hb := List.mem_append.mp hb
    · simpa [load] using (hs.bak b hb).1
    · simpa [load] using hs.cacheKnown b hb
  | atRow k => exact absurd rfl (he k)

theorem reload_spec (hs : s.Tidy known) {e : LoadEnd} (hrows : e = .ok → s.RowsNew known) :
    Advances known s (s.reload e) := by
  cases e with
  | ok => exact load_spec hs (by simp) hrows
  | noScan => exact load_spec (e := .noScan) hs (by simp) (by simp)
  | atRow k => exact ⟨.of_subset rfl (by simp [reload]), hs.rows, by simp [reload], by simp [reload],
      by simp [reload, load], by simp [reload]⟩

end Load

section Statements
variable {s : Servers} {known : List Text} {name : Text} (hs : s.Tidy known)
include hs

theorem write_spec (name : Text) (info : Option Info) : Advances known s (s.write name info) := by
  refine hs.advances ?_
  rw [List.map_append]
  refine List.Nodup.append ((List.filter_sublist.map _).nodup hs.rows) ?_ ?_
  · cases info <;> simp
  · intro n hn hn'
    obtain ⟨r, hr, rfl⟩ := List.mem_map.mp hn
    cases info with
    | none => simp at hn'
    | some x =>
      have hne : r.1 ≠ name := by simpa using (List.mem_filter.mp hr).2
      exact hne (by simpa using hn')

theorem drop_spec {opened : Bool} {t : Servers} (ht : s.drop name opened = some t) :
    Advances known s t := by
  have hfound : (search s.cache name).isSome = true := by
    by_contra h
    simp [drop, h] at ht
  rw [drop, if_pos hfound] at ht
  cases ht
  have hsub : ∀ y ∈ s.cache.filter (·.name ≠ name), y ∈ s.cache := fun y hy => List.mem_of_mem_filter hy
  refine ⟨.of_subset rfl hsub, ?_, (List.filter_sublist.map _).nodup hs.cache, fun x hx => ?_, fun b hb => ?_,
    fun h x hx => ?_⟩
  · split_ifs
    · exact (List.filter_sublist.map _).nodup hs.rows
    · exact hs.rows
  · exact List.mem_append_right _ (hs.cacheKnown x (hsub x hx))
  · exact ⟨List.mem_append_right _ (hs.bak b hb).1, fun x hx => (hs.bak b hb).2 x (hsub x hx)⟩
  · exact hs.first h x (hsub x hx)

theorem insert_spec (hname : name ∉ known) (info : Info) (inserted : Bool) :
    Advances known s (s.insert name info inserted) := by
  unfold Servers.insert
  by_cases hrow : (s.rows.map (·.1)).contains name = true
  · rw [if_pos hrow]
    exact hs.advances hs.rows
  · rw [if_neg hrow]
    have hrows : ((s.rows ++ [(name, info)]).map (·.1)).Nodup := by
      rw [List.map_append]
      exact List.Nodup.append hs.rows (by simp) (by simpa using hrow)
    cases inserted with
    | false => exact hs.advances hrows
    | true =>
      have hevolves : Evolves known s { s with rows := s.rows ++ [(name, info)], cache := s.cache ++ [⟨name, info, 0⟩] } := by
        refine ⟨le_rfl, fun y hy => ?_⟩
        obtain hy | hy := List.mem_append.mp hy
        · exact .inl ⟨y, hy, rfl, le_rfl, fun _ => rfl, fun _ => rfl⟩
        · obtain rfl := List.mem_singleton.mp hy
          exact .inr ⟨hname, rfl⟩
      refine ⟨hevolves, hrows, ?_, fun x hx => List.mem_append_left _ (List.mem_map_of_mem hx),
        fun b hb => ⟨List.mem_append_right _ (hs.bak b hb).1, fun x hx => ?_⟩, hevolves.first hs.first⟩
      · exact nodup_append_server hs.cache fun x hx (hx' : x.name = name) => hname (hx' ▸ hs.cacheKnown x hx)
      · obtain hx | hx := List.mem_append.mp hx
        · exact (hs.bak b hb).2 x hx
        · obtain rfl := List.mem_singleton.mp hx
          rintro rfl
          exact hname (hs.bak b hb).1

theorem create_spec {orReplace : Bool}
    (hname : name ∉ known ∨ (search s.cache name).isSome ∧ orReplace = false) (info : Info) (opened inserted : Bool) :
    Advances known s (s.create name info orReplace opened inserted) := by
  cases hfound : search s.cache name with
  | none =>
    have hnew : name ∉ known := by simpa [hfound] using hname
    simpa only [create, hfound] using insert_spec hs hnew info inserted
  | some x =>
    obtain ⟨hx, rfl⟩ := search_eq_some hfound
    have hkeep : orReplace = false := by
      obtain h | h := hname
      · exact absurd (hs.cacheKnown x hx) h
      · exact h.2
    subst hkeep
    simpa [create, hfound] using hs.advances hs.rows

theorem alter_evolves {x : Server} (hx : x ∈ s.cache) (info : Info) (rows : List Row)
    (hrows : rows.map (·.1) = s.rows.map (·.1)) :
    let t : Servers := { s with
      rows := rows, cache := s.cache.filter (·.name ≠ x.name) ++ [⟨x.name, info, x.version + 1⟩],
      modifyVersion := s.modifyVersion + 1 }
    Evolves known s t ∧ t.Tidy known ∧ (s.RowsNew known → t.RowsNew known) := by
  intro t
  have hmem : ∀ y ∈ t.cache, (y ∈ s.cache ∧ y.name ≠ x.name) ∨ y = ⟨x.name, info, x.version + 1⟩ := by
    intro y hy
    obtain hy | hy := List.mem_append.mp hy
    · exact .inl (by simpa using hy)
    · exact .inr (List.mem_singleton.mp hy)
  refine ⟨⟨Nat.le_succ _, fun y hy => .inl ?_⟩, ⟨by rw [hrows]; exact hs.rows, ?_, fun y hy => ?_, fun b hb => ?_,
    by simp [t]⟩, ?_⟩
  · obtain ⟨hy, -⟩ | rfl := hmem y hy
    · exact ⟨y, hy, rfl, le_rfl, fun _ => rfl, fun _ => rfl⟩
    · exact ⟨x, hx, rfl, Nat.le_succ _, by simp, by simp [t]⟩
  · exact nodup_append_server ((List.filter_sublist.map _).nodup hs.cache) fun y hy =>
      by simpa using (List.mem_filter.mp hy).2
  · obtain ⟨hy, -⟩ | rfl := hmem y hy
    · exact hs.cacheKnown y hy
    · exact hs.cacheKnown x hx
  · refine ⟨(hs.bak b hb).1, fun y hy => ?_⟩
    obtain ⟨hy, -⟩ | rfl := hmem y hy
    · exact (hs.bak b hb).2 y hy
    · exact (hs.bak b hb).2 x hx
  · intro hnew r hr
    have hr' : r.1 ∈ s.rows.map (·.1) := hrows ▸ List.mem_map_of_mem hr
    obtain ⟨r', hr', hname⟩ := List.mem_map.mp hr'
    refine (hnew r' hr').imp (fun h => ?_) (fun h => hname ▸ h)
    obtain ⟨y, hy⟩ := isSome_iff_exists.mp h
    obtain ⟨hy, hyname⟩ := search_eq_some hy
    rw [← hname, isSome_iff_ne_none, Ne, search_eq_none, not_forall]
    by_cases hxy : y.name = x.name
    · exact ⟨⟨x.name, info, x.version + 1⟩, by simp [t, ← hyname, hxy]⟩
    · have hmem : y ∈ t.cache := List.mem_append_left _ (List.mem_filter.mpr ⟨hy, by simpa using hxy⟩)
      exact ⟨y, fun h => h hmem hyname⟩

theorem alter_spec (hnew : s.RowsNew known) (name : Text) (o : Options) {e : LoadEnd} (he : ∀ k, e ≠ .atRow k) :
    Advances known s (s.alter name o true e) := by
  have hsame := hs.advances hs.rows
  cases hfound : search s.cache name with
  | none => simpa only [alter, hfound] using hsame
  | some x =>
    obtain ⟨hx, rfl⟩ := search_eq_some hfound
    by_cases hrow : (s.rows.map (·.1)).contains x.name = true
    · have hnames : (s.rows.map fun r => if r.1 = x.name then (r.1, (o.altered x.info).apply r.2) else r).map (·.1) =
          s.rows.map (·.1) := by
        rw [List.map_map]
        refine List.map_congr_left fun r _ => ?_
        simp only [Function.comp_apply]
        split_ifs <;> rfl
      obtain ⟨hevolves, htidy, hrows⟩ := alter_evolves hs hx ((o.altered x.info).apply x.info) _ hnames
      obtain ⟨hload, hloaded⟩ := load_spec htidy he fun _ => hrows hnew
      simp only [alter, hfound, if_pos hrow, if_true]
      exact ⟨hevolves.trans hload htidy.cacheKnown, hloaded⟩
    · simpa only [alter, hfound, if_neg hrow] using hsame

end Statements

/-! ## Keys -/

def KeyOf (name : Text) (version : Nat) (key : Text) : Prop :=
  version = 0 ∧ key = createConnKey name ∨ key = updateConnKey name version

theorem KeyOf.version_eq {name key : Text} {v w : Nat} (hv : KeyOf name v key) (hw : KeyOf name w key) : v = w := by
  have hne : ∀ u, createConnKey name ≠ updateConnKey name u := fun u h => by
    have := congrArg List.length h
    simp [createConnKey, updateConnKey] at this
  obtain ⟨hv, rfl⟩ | rfl := hv
  · obtain ⟨hw, -⟩ | hw := hw
    · rw [hv, hw]
    · exact absurd hw (hne w)
  · obtain ⟨-, hw⟩ | hw := hw
    · exact absurd hw.symm (hne v)
    · exact (updateConnKey_inj hw).2

/-! ## Invariant -/

section Inv
variable {fold : Text → Text} {s t : Servers} {known known' : List Text} {sh : Share}

/-- The key of a connection has a version of its server that stood for one definition since the connection was opened. -/
def Conn.Good (fold : Text → Text) (s : Servers) (known : List Text) (c : Conn) : Prop :=
  fold c.name ∈ known ∧ ∃ v, KeyOf c.name v c.key ∧ ∀ x ∈ s.cache, x.name = fold c.name →
    v ≤ x.version ∧ ∀ o, c.opened = some o → v ≤ o.version ∧ o.version ≤ x.version ∧ (o.version = x.version → o.info = x.info)

/-- A share's key has the version of its server if no server got a new version since it was written. -/
def Share.Good (fold : Text → Text) (s : Servers) (known : List Text) (sh : Share) : Prop :=
  ∃ name key, sh.names = [name] ∧ sh.keys = [key] ∧ fold name ∈ known ∧ KeyOf name sh.keyVersion key ∧
    sh.modifyVersion ≤ s.modifyVersion ∧ ∀ x ∈ s.cache, x.name = fold name →
      sh.keyVersion ≤ x.version ∧ (sh.modifyVersion = s.modifyVersion → sh.keyVersion = x.version)

theorem Conn.Good.evolves {c : Conn} (h : c.Good fold s known) (hst : Evolves known s t) (hsub : known ⊆ known') :
    c.Good fold t known' := by
  obtain ⟨hname, v, hkey, hc⟩ := h
  refine ⟨hsub hname, v, hkey, fun y hy hyname => ?_⟩
  obtain ⟨x, hx, hxy, hle, hinfo, -⟩ | hnew := hst.server y hy
  · obtain ⟨hv, hopened⟩ := hc x hx (hxy.trans hyname)
    refine ⟨hv.trans hle, fun o ho => ?_⟩
    obtain ⟨hvo, hox, hsame⟩ := hopened o ho
    refine ⟨hvo, hox.trans hle, fun h => ?_⟩
    have hxy : x.version = y.version := by omega
    exact (hsame (by omega)).trans (hinfo hxy)
  · exact absurd (hyname ▸ hname) hnew.1

theorem Share.Good.evolves (h : sh.Good fold s known) (hst : Evolves known s t) (hsub : known ⊆ known') :
    sh.Good fold t known' := by
  obtain ⟨name, key, hnames, hkeys, hname, hkey, hmodify, hsh⟩ := h
  refine ⟨name, key, hnames, hkeys, hsub hname, hkey, hmodify.trans hst.modify, fun y hy hyname => ?_⟩
  obtain ⟨x, hx, hxy, hle, -, hsame⟩ | hnew := hst.server y hy
  · obtain ⟨hv, heq⟩ := hsh x hx (hxy.trans hyname)
    have hst' := hst.modify
    exact ⟨hv.trans hle, fun h => (heq (by omega)).trans (hsame (by omega))⟩
  · exact absurd (hyname ▸ hname) hnew.1

theorem versionByName_of_mem (hs : s.Tidy known) {x : Server} (hx : x ∈ s.cache) {name : Text} (hname : x.name = fold name) :
    s.versionByName fold name = x.version := by
  rw [versionByName, ← hname, search_of_mem hs.cache hx]
  rfl

theorem Share.Good.updateKeys (h : sh.Good fold s known) (hs : s.Tidy known) :
    { sh.updateKeys fold s 0 with modifyVersion := s.modifyVersion }.Good fold s known := by
  obtain ⟨name, key, hnames, hkeys, hname, hkey, -, -⟩ := h
  have hnow : ∀ x ∈ s.cache, x.name = fold name → s.versionByName fold name = x.version :=
    fun x hx hx' => versionByName_of_mem hs hx hx'
  have hlink : sh.names[0]? = some name := by simp [hnames]
  simp only [Share.updateKeys, hlink]
  by_cases hversion : s.versionByName fold name ≠ sh.keyVersion
  · rw [if_pos hversion]
    exact ⟨name, updateConnKey name (s.versionByName fold name), hnames, by simp [hkeys], hname, .inr rfl, le_rfl,
      fun x hx hx' => ⟨(hnow x hx hx').le, fun _ => hnow x hx hx'⟩⟩
  · rw [if_neg hversion]
    rw [not_not] at hversion
    rw [hversion] at hnow
    exact ⟨name, key, hnames, hkeys, hname, hkey, le_rfl, fun x hx hx' => ⟨(hnow x hx hx').le, fun _ => hnow x hx hx'⟩⟩

theorem Share.updateKeys_names (sh : Share) (s : Servers) (link : Nat) : (sh.updateKeys fold s link).names = sh.names := by
  unfold Share.updateKeys
  split
  · rfl
  · split_ifs <;> rfl

theorem Share.refresh_names (sh : Share) (s : Servers) (link : Nat) : (sh.refresh fold s link).names = sh.names := by
  unfold Share.refresh
  split_ifs
  · exact sh.updateKeys_names s link
  · rfl

theorem Share.Good.refresh (h : sh.Good fold s known) (hs : s.Tidy known) {link : Nat} {name key : Text}
    (hname : (sh.refresh fold s link).names[link]? = some name) (hkey : (sh.refresh fold s link).keys[link]? = some key) :
    (sh.refresh fold s link).Good fold s known ∧ fold name ∈ known ∧ KeyOf name (sh.refresh fold s link).keyVersion key ∧
      ∀ x ∈ s.cache, x.name = fold name → (sh.refresh fold s link).keyVersion = x.version := by
  obtain rfl : link = 0 := by
    obtain ⟨n, k, hnames, -⟩ := h
    rw [Share.refresh_names, hnames] at hname
    have := (List.getElem?_eq_some_iff.mp hname).1
    simpa using this
  have hgood : (sh.refresh fold s 0).Good fold s known ∧ (sh.refresh fold s 0).modifyVersion = s.modifyVersion := by
    unfold Share.refresh
    split_ifs with hmodify
    · exact ⟨h.updateKeys hs, rfl⟩
    · exact ⟨h, not_not.mp hmodify⟩
  obtain ⟨⟨n, k, hnames, hkeys, hn, hk, hle, hsh⟩, hmodify⟩ := hgood
  obtain rfl : n = name := by simpa [hnames] using hname
  obtain rfl : k = key := by simpa [hkeys] using hkey
  exact ⟨⟨n, k, hnames, hkeys, hn, hk, hle, hsh⟩, hn, hk, fun x hx hx' => (hsh x hx hx').2 hmodify⟩

end Inv

structure Inv (fold : Text → Text) (st : State) : Prop where
  servers : st.servers.Tidy st.known
  shares : ∀ sh ∈ st.shares, sh.Good fold st.servers st.known
  pool : ∀ c ∈ st.pool, c.Good fold st.servers st.known
  held : ∀ thd, ∀ c ∈ st.held thd, c.Good fold st.servers st.known

/-- A name that comes into the cache is new, a reload for ALTER SERVER does not stop within the rows, a table has one link. -/
def Steady (st : State) : Op → Prop
  | .create name _ orReplace _ _ => name ∉ st.known ∨ (search st.servers.cache name).isSome ∧ orReplace = false
  | .alter _ _ inserted e => inserted = true ∧ (e = .ok ∨ e = .noScan) ∧ st.servers.RowsNew st.known
  | .reload e => e = .ok → st.servers.RowsNew st.known
  | .openTable names => names.length = 1
  | _ => True

instance (s : Servers) (known : List Text) : Decidable (s.RowsNew known) := by unfold RowsNew; infer_instance

instance (st : State) (op : Op) : Decidable (Steady st op) := by
  unfold Steady
  split <;> infer_instance

namespace Inv
variable {fold : Text → Text} {st : State}

theorem init : Inv fold State.init := by
  refine ⟨⟨?_, ?_, ?_, ?_, ?_⟩, ?_, ?_, ?_⟩ <;> simp [State.init]

theorem setServers (h : Inv fold st) {s : Servers} (hs : Advances st.known st.servers s) : Inv fold (st.setServers s) := by
  have hsub : st.known ⊆ s.cache.map (·.name) ++ st.known := List.subset_append_right _ _
  exact ⟨hs.2, fun sh hsh => (h.shares sh hsh).evolves hs.1 hsub, fun c hc => (h.pool c hc).evolves hs.1 hsub,
    fun thd c hc => (h.held thd c hc).evolves hs.1 hsub⟩

theorem setHeld (h : Inv fold st) (thd : Nat) {l : List Conn} (hl : ∀ c ∈ l, c.Good fold st.servers st.known) :
    Inv fold (st.setHeld thd l) := by
  refine ⟨h.servers, h.shares, h.pool, fun u c hc => ?_⟩
  by_cases hu : u = thd
  · subst hu
    simp only [State.setHeld, Function.update_self] at hc
    exact hl c hc
  · simp only [State.setHeld, Function.update_of_ne hu] at hc
    exact h.held u c hc

theorem setShare (h : Inv fold st) (i : Nat) {sh : Share} (hsh : sh.Good fold st.servers st.known) :
    Inv fold (st.setShare i sh) := by
  refine ⟨h.servers, fun x hx => ?_, h.pool, h.held⟩
  obtain hx | rfl := List.mem_or_eq_of_mem_set hx
  · exact h.shares x hx
  · exact hsh

theorem setPool (h : Inv fold st) {l : List Conn} (hl : ∀ c ∈ l, c.Good fold st.servers st.known) :
    Inv fold { st with pool := l } :=
  ⟨h.servers, h.shares, hl, h.held⟩

theorem keyFor (h : Inv fold st) {i link : Nat} {sh : Share} {name key : Text}
    (hkey : st.keyFor fold i link = some (sh, name, key)) :
    sh.Good fold st.servers st.known ∧ fold name ∈ st.known ∧ KeyOf name sh.keyVersion key ∧
      ∀ x ∈ st.servers.cache, x.name = fold name → sh.keyVersion = x.version := by
  simp only [State.keyFor, bind_eq_bind, bind_eq_some_iff, Option.some.injEq, Prod.mk.injEq] at hkey
  obtain ⟨sh₀, hsh₀, n, hn, k, hk, rfl, rfl, rfl⟩ := hkey
  exact (h.shares sh₀ (List.mem_of_getElem? hsh₀)).refresh h.servers hn hk

theorem connect (h : Inv fold st) {c : Conn} (hc : c.Good fold st.servers st.known) :
    (st.connect fold c).Good fold st.servers st.known := by
  unfold State.connect
  split
  · rename_i x hfound
    obtain ⟨hx, hname⟩ := search_eq_some hfound
    obtain ⟨hknown, v, hkey, hv⟩ := hc
    refine ⟨hknown, v, hkey, fun y hy hyname => ⟨(hv y hy hyname).1, fun o ho => ?_⟩⟩
    obtain rfl : x = o := Option.some.inj ho
    obtain rfl : x = y := List.inj_on_of_nodup_map h.servers.cache hx hy (hname.trans hyname.symm)
    exact ⟨(hv x hx hname).1, le_rfl, fun _ => rfl⟩
  · exact hc

/-- A table that is opened takes the name of its server for the key. -/
theorem create (h : Inv fold st) {name : Text} (hfound : (search st.servers.cache (fold name)).isSome = true) :
    (Share.create [name]).Good fold st.servers st.known := by
  obtain ⟨x, hsearch⟩ := isSome_iff_exists.mp hfound
  obtain ⟨hx, hname⟩ := search_eq_some hsearch
  exact ⟨name, createConnKey name, rfl, rfl, hname ▸ h.servers.cacheKnown x hx, .inl ⟨rfl, rfl⟩, Nat.zero_le _,
    fun y hy _ => ⟨Nat.zero_le _, fun h0 => (h.servers.first h0.symm y hy).symm⟩⟩

theorem step (h : Inv fold st) {op : Op} {st' : State} (hok : Steady st op) (hstep : st.step fold op = some st') :
    Inv fold st' := by
  cases op with
  | write name info =>
    cases hstep
    exact h.setServers (write_spec h.servers name info)
  | create name info orReplace opened inserted =>
    cases hstep
    exact h.setServers (create_spec h.servers hok info opened inserted)
  | drop name opened =>
    obtain ⟨s, hs, rfl⟩ := map_eq_some_iff.mp hstep
    exact h.setServers (drop_spec h.servers hs)
  | alter name o inserted e =>
    obtain ⟨rfl, he, hrows⟩ := hok
    cases hstep
    exact h.setServers (alter_spec h.servers hrows name o fun k hk => by simp [hk] at he)
  | reload e =>
    cases hstep
    exact h.setServers (reload_spec h.servers hok)
  | openTable names =>
    obtain ⟨name, rfl⟩ := List.length_eq_one_iff.mp hok
    simp only [State.step] at hstep
    split_ifs at hstep with hfound
    cases hstep
    refine ⟨h.servers, List.forall_mem_append.mpr ⟨h.shares, ?_⟩, h.pool, h.held⟩
    exact List.forall_mem_singleton.mpr (h.create (by simpa using hfound))
  | closeTable i =>
    cases hstep
    exact ⟨h.servers, fun sh hsh => h.shares sh (List.mem_of_mem_eraseIdx hsh), h.pool, h.held⟩
  | startStmt thd =>
    cases hstep
    exact ⟨h.servers, h.shares, h.pool, h.held⟩
  | reuse thd i link =>
    simp only [State.step, bind_eq_bind, bind_eq_some_iff, Option.some.injEq] at hstep
    obtain ⟨⟨sh, name, key⟩, hkey, -, -, rfl⟩ := hstep
    exact h.setShare i (h.keyFor hkey).1
  | getPooled thd i link place =>
    simp only [State.step, bind_eq_bind, bind_eq_some_iff] at hstep
    obtain ⟨⟨sh, name, key⟩, hkey, c, hc, hstep⟩ := hstep
    split_ifs at hstep with hfree
    cases hstep
    have hpool := h.setPool fun c' (hc' : c' ∈ st.pool.eraseIdx place) => h.pool c' (List.mem_of_mem_eraseIdx hc')
    refine (hpool.setHeld thd (List.forall_mem_cons.mpr ⟨?_, h.held thd⟩)).setShare i (h.keyFor hkey).1
    exact h.pool c (List.mem_of_getElem? hc)
  | createConn thd i link counted =>
    simp only [State.step, bind_eq_bind, bind_eq_some_iff] at hstep
    obtain ⟨⟨sh, name, key⟩, hkey, hstep⟩ := hstep
    obtain ⟨-, hstep⟩ := ite_none_right_eq_some.mp hstep
    cases hstep
    obtain ⟨hsh, hname, hkeyOf, hversion⟩ := h.keyFor hkey
    refine (h.setHeld thd (List.forall_mem_cons.mpr ⟨?_, h.held thd⟩)).setShare i hsh
    exact ⟨hname, sh.keyVersion, hkeyOf, fun x hx hx' => ⟨(hversion x hx hx').le, by simp⟩⟩
  | connect thd j =>
    simp only [State.step, bind_eq_bind, bind_eq_some_iff, Option.some.injEq] at hstep
    obtain ⟨c, hc, rfl⟩ := hstep
    refine h.setHeld thd fun c' hc' => ?_
    obtain hc' | rfl := List.mem_or_eq_of_mem_set hc'
    · exact h.held thd c' hc'
    · exact h.connect (h.held thd c (List.mem_of_getElem? hc))
  | release thd j keep =>
    simp only [State.step, bind_eq_bind, bind_eq_some_iff, Option.some.injEq] at hstep
    obtain ⟨c, hc, rfl⟩ := hstep
    have hheld := h.setHeld thd fun c' (hc' : c' ∈ (st.held thd).eraseIdx j) => h.held thd c' (List.mem_of_mem_eraseIdx hc')
    split_ifs
    · refine hheld.setPool (List.forall_mem_cons.mpr ⟨?_, h.pool⟩)
      exact h.held thd c (List.mem_of_getElem? hc)
    · exact hheld
  | recycle place =>
    cases hstep
    exact h.setPool fun c hc => h.pool c (List.mem_of_mem_eraseIdx hc)

end Inv

/-! ## What the pool hands out -/

def State.handsOut (fold : Text → Text) (st : State) (i link place : Nat) : Option (Conn × Text) := do
  let (_, name, key) ← st.keyFor fold i link
  let c ← st.pool[place]?
  if c.key = key then some (c, name) else none

/-- A connection opened for a table's server, and handed out for it, was opened with its definition. -/
def NeverStale (fold : Text → Text) (st : State) : Prop :=
  ∀ i link place c name, st.handsOut fold i link place = some (c, name) → c.name = name →
    ∀ o x, c.opened = some o → search st.servers.cache (fold name) = some x → o.info = x.info

theorem Inv.neverStale {fold : Text → Text} {st : State} (h : Inv fold st) : NeverStale fold st := by
  intro i link place c name hout hname o x ho hx
  simp only [handsOut, bind_eq_bind, bind_eq_some_iff] at hout
  obtain ⟨⟨sh, n, key⟩, hkey, c', hc, hout⟩ := hout
  split_ifs at hout with heq
  obtain ⟨rfl, rfl⟩ := Prod.mk.inj (Option.some.inj hout)
  obtain ⟨hx, hxname⟩ := search_eq_some hx
  obtain ⟨-, -, hkeyOf, hversion⟩ := h.keyFor hkey
  obtain ⟨-, v, hv, hgood⟩ := h.pool c' (List.mem_of_getElem? hc)
  -- the versions in the two keys are equal, and that of the opened server is between them
  have hsame : v = sh.keyVersion := (hname ▸ hv).version_eq (heq ▸ hkeyOf)
  obtain ⟨-, hopened⟩ := hgood x hx (hxname.trans (congrArg fold hname.symm))
  obtain ⟨hle, hle', hinfo⟩ := hopened o ho
  have := hversion x hx hxname
  exact hinfo (by omega)

/-- Along every run in which no name comes back to the cache, every table has one link and no ALTER SERVER fails midway, no
stale connection is handed out. -/
theorem neverStale_of_steady (fold : Text → Text) (ops : List Op) (st : State) (hsteady : Along (step fold) Steady init ops)
    (hrun : runOps (step fold) init ops = some st) : NeverStale fold st :=
  (Along.invariant (Inv fold) (fun _ _ _ h hok hstep => h.step hok hstep) Inv.init hsteady hrun).neverStale

/-- The letters of ASCII in lower case. -/
def lower (name : Text) : Text := name.map fun b => if 0x41 ≤ b ∧ b ≤ 0x5a then b + 0x20 else b

def serverOn (host : UInt8) : Info := ⟨[host], [], [], [], 3306, [], [], []⟩

/-- The table spells the server `s` as `S`. -/
def alterRun : List Op :=
  [.create [0x73] (serverOn 1) false true true, .openTable [[0x53]], .startStmt 0, .createConn 0 0 0 true, .connect 0 0,
    .release 0 0 true, .alter [0x73] ⟨some [2], none, none, none, none, none, none, none⟩ true .ok, .startStmt 0,
    .createConn 0 0 0 true, .connect 0 0, .release 0 0 true]

theorem neverStale_alter : ∃ st, runOps (step lower) init alterRun = some st ∧ st.pool.length = 2 ∧ NeverStale lower st :=
  ⟨_, rfl, rfl, neverStale_of_steady lower alterRun _ (by decide) rfl⟩

/-- A server is dropped and created again with another host; the table gets the connection to the first host. -/
theorem not_neverStale : ∃ st, runOps (step lower) init
        [.create [0x73] (serverOn 1) false true true, .openTable [[0x73]], .startStmt 0, .createConn 0 0 0 true, .connect 0 0,
          .release 0 0 true, .drop [0x73] true, .create [0x73] (serverOn 2) false true true] = some st ∧
            ¬NeverStale lower st := by
  refine ⟨_, rfl, fun h => ?_⟩
  have hhost := h 0 0 0 ⟨[0x73], createConnKey [0x73], 0, some ⟨[0x73], serverOn 1, 0⟩⟩ [0x73] rfl rfl ⟨[0x73], serverOn 1, 0⟩
    ⟨[0x73], serverOn 2, 0⟩ rfl rfl
  exact absurd hhost (by decide)

end TSpider.Pool
