/-
What the registry of sources keeps.

`Valid` is the invariant: every row passes the check made when it is read, and no two rows
share a repository key, a root or an origin.

* `readRow_within` — what passes the read check is within the bounds of `checkState`;
* `readable` — so every lookup, listing and opening of a valid registry succeeds;
* `validate_unique` — a key belongs to one origin;
* `step_valid`, `step_kept` — a call keeps the invariant, and every row but for its readiness;
* `source_registry` — the result over runs.
-/
import Cartograph.Sources.Registry
import Cartograph.Sources.Spelling

namespace Sources

open Checked Machine Investigation

variable {url : UrlCrate} {s s' : Registry}

/-! ### The read check and the bounds -/

variable {value input id : String} {path : Option String} {o : ManagedOrigin} {row : SourceRow}
  {source : RegisteredSource} {field : Field} {s₁ s₀ : Registry} {fs : FileSystem}
  {draws : ℕ → String}

theorem utf8ByteSize_validId {lead : String} (h : validId value lead = true) :
    value.utf8ByteSize = lead.utf8ByteSize + 32 := by
  obtain ⟨rest, hrest, htoken⟩ := (Option.any_eq_true _ _).mp h
  obtain ⟨lead', hvalue, hlead⟩ := List.dropPrefix?_eq_some_iff.mp hrest
  obtain rfl := eq_of_beq hlead
  have hsplit : value = lead ++ String.ofList rest := by
    rw [← String.ofList_toList (s := value), hvalue, String.ofList_append, String.ofList_toList]
  have hlen : (String.ofList rest).utf8ByteSize = 32 := by
    simp only [isToken, Bool.and_eq_true, beq_iff_eq] at htoken
    exact htoken.1
  rw [hsplit, String.utf8ByteSize_append, hlen]

theorem boundedText_ok {max : ℕ} {u : Unit} (h : boundedText value max = .ok u) :
    lengthWithin max value = true := by
  obtain ⟨hne, hle, -⟩ := ensure_eq_ok.mp h
  have hpos : value.utf8ByteSize ≠ 0 := mt String.utf8ByteSize_eq_zero_iff.mp hne
  simp only [lengthWithin, Bool.and_eq_true, decide_eq_true_eq]
  exact ⟨by omega, hle⟩

theorem toBool_eq_true {α ε : Type} {x : Except ε α} : x.toBool = true ↔ ∃ a, x = .ok a := by
  cases x with
  | error e | ok a => simp [Except.toBool]

theorem pathText_ok {text : String} (h : pathText path = .ok text) :
    path = some text ∧ lengthWithin MAX_PATH_BYTES text = true := by
  simp only [pathText, bind_eq_ok, orFail_eq_ok, pure_eq_ok] at h
  obtain ⟨text', hpath, _, hbounded, _, -, rfl⟩ := h
  exact ⟨hpath, boundedText_ok hbounded⟩

theorem githubOrigin_repo (h : githubOrigin url input = .ok o) :
    ∃ owner name, o = githubRepo owner name := by
  simp only [githubOrigin, bind_eq_ok, pure_eq_ok] at h
  obtain ⟨_, -, _, -, ⟨owner, name⟩, -, rfl⟩ := h
  exact ⟨owner, name, rfl⟩

theorem mirrorOrigin_file (h : mirrorOrigin url input = .ok o) :
    o.githubRepo = none ∧ o.key = o.cloneUrl := by
  simp only [mirrorOrigin, fileOrigin, bind_eq_ok, pure_eq_ok] at h
  obtain ⟨_, -, _, -, _, -, _, -, _, -, _, -, rfl⟩ := h
  exact ⟨rfl, rfl⟩

section

variable (h : o.validate url = .ok ())
include h

theorem validate_cases :
    expectedOrigin url o.cloneUrl = .ok o
      ∧ ((o.githubRepo = none ∧ o.key = o.cloneUrl ∧ ∃ rest, o.cloneUrl.toList = "file:".toList ++ rest)
        ∨ ∃ owner name, o = githubRepo owner name) := by
  simp only [ManagedOrigin.validate, bind_eq_ok, ensure_eq_ok] at h
  obtain ⟨_, -, o', horigin, rfl⟩ := h
  refine ⟨horigin, ?_⟩
  rw [expectedOrigin] at horigin
  split_ifs at horigin with hfile
  · obtain ⟨hrepo, hkey⟩ := mirrorOrigin_file horigin
    obtain ⟨rest, hrest⟩ := List.isPrefixOf_iff_prefix.mp hfile
    exact .inl ⟨hrepo, hkey, rest, hrest.symm⟩
  · exact .inr (githubOrigin_repo horigin)

/-- **A key belongs to one origin.** -/
theorem validate_unique {o' : ManagedOrigin}
    (h' : o'.validate url = .ok ()) (hkey : o.key = o'.key) : o = o' := by
  obtain ⟨hexpected, hform⟩ := validate_cases h
  obtain ⟨hexpected', hform'⟩ := validate_cases h'
  have hclone : o.cloneUrl = o'.cloneUrl → o = o' := by
    intro heq
    rw [heq] at hexpected
    exact Except.ok.inj (hexpected.symm.trans hexpected')
  have hmixed : ∀ {o : ManagedOrigin} {owner name rest : List Char}, o.key = o.cloneUrl →
      o.cloneUrl.toList = "file:".toList ++ rest → o.key ≠ (githubRepo owner name).key := by
    intro o owner name rest hown hlist heq
    rw [hown] at heq
    rw [heq] at hlist
    have hkeyList : (githubRepo owner name).key.toList = "github:".toList ++ (owner ++ '/' :: name) :=
      String.toList_ofList
    rw [hkeyList] at hlist
    simp at hlist
  rcases hform with ⟨-, hown, rest, hlist⟩ | ⟨owner, name, rfl⟩
  · rcases hform' with ⟨-, hown', -⟩ | ⟨owner', name', rfl⟩
    · exact hclone (hown ▸ hown' ▸ hkey)
    · exact absurd hkey (hmixed hown hlist)
  · rcases hform' with ⟨-, hown', rest, hlist⟩ | ⟨owner', name', rfl⟩
    · exact absurd hkey.symm (hmixed hown' hlist)
    · -- The key and the clone URL are the same text around the repository.
      have hrepo : owner ++ '/' :: name = owner' ++ '/' :: name' :=
        List.append_cancel_left (String.ofList_injective hkey)
      exact hclone (congrArg (fun repo => String.ofList
        ("https://github.com/".toList ++ repo ++ ".git".toList)) hrepo)

theorem validate_lengths :
    lengthWithin MAX_ORIGIN_TEXT_BYTES o.key = true
      ∧ lengthWithin MAX_ORIGIN_TEXT_BYTES o.cloneUrl = true
      ∧ ∀ repo ∈ o.githubRepo, lengthWithin MAX_REPO_BYTES repo = true := by
  have hpos : ∀ {text : String}, text ≠ "" → 1 ≤ text.utf8ByteSize := fun hne =>
    Nat.one_le_iff_ne_zero.mpr (mt String.utf8ByteSize_eq_zero_iff.mp hne)
  have hne : o.key ≠ "" ∧ o.cloneUrl ≠ "" ∧ ∀ repo ∈ o.githubRepo, repo ≠ "" := by
    rcases (validate_cases h).2 with ⟨hrepo, hkey, rest, hlist⟩ | ⟨owner, name, rfl⟩
    · have hclone : o.cloneUrl ≠ "" := by
        intro hnil
        rw [hnil] at hlist
        simp at hlist
      exact ⟨hkey ▸ hclone, hclone, by simp [hrepo]⟩
    · have hof : ∀ {text : List Char}, text ≠ [] → String.ofList text ≠ "" := fun hne =>
        mt String.ofList_eq_empty_iff.mp hne
      have hrepo : owner ++ '/' :: name ≠ [] := by simp
      refine ⟨hof (List.append_ne_nil_of_right_ne_nil _ hrepo),
        hof (List.append_ne_nil_of_left_ne_nil (List.append_ne_nil_of_right_ne_nil _ hrepo) _), ?_⟩
      intro repo hmem
      obtain rfl := Option.some.inj hmem
      exact hof hrepo
  simp only [ManagedOrigin.validate, bind_eq_ok, ensure_eq_ok] at h
  obtain ⟨_, ⟨hkey, hclone, -, hrepo⟩, -⟩ := h
  have hbounds : MAX_ORIGIN_BYTES ≤ MAX_ORIGIN_TEXT_BYTES ∧ 201 ≤ MAX_REPO_BYTES := by decide
  simp only [lengthWithin, Bool.and_eq_true, decide_eq_true_eq]
  exact ⟨⟨hpos hne.1, hkey.trans hbounds.1⟩, ⟨hpos hne.2.1, hclone.trans hbounds.1⟩,
    fun repo hmem => ⟨hpos (hne.2.2 repo hmem), (hrepo repo hmem).trans hbounds.2⟩⟩

end

/-- What a row that passes the read check is returned as. -/
structure Reads (url : UrlCrate) (id : String) (row : SourceRow) (source : RegisteredSource) :
    Prop where
  sourceId : source.sourceId = id
  repoKey : source.repoKey = row.repoKey
  root : source.root = row.root
  displayName : source.displayName = row.displayName
  validId : validId id "src_" = true
  managed : source.origin.isSome = true ↔ row.kind = .managed
  origin : ∀ o ∈ source.origin, o.validate url = .ok () ∧ row.originKey = some o.key
    ∧ row.cloneUrl = some o.cloneUrl ∧ row.displayName = o.displayName
    ∧ row.githubRepo = o.githubRepo
  within : rowWithin id row = true

theorem lengthWithin_localRepo (h : id.utf8ByteSize = 36) :
    lengthWithin MAX_REPO_BYTES (localRepo id) = true := by
  have hlead : "local/".utf8ByteSize = 6 := by decide
  simp only [lengthWithin, localRepo, String.utf8ByteSize_append, h, hlead]
  decide

variable {reg : String} {dir : Option String} {call : Call} {fs' : FileSystem} {draws' : ℕ → String}

theorem readRow_ok {dir : String} (h : readRow url dir reg id row = .ok source) :
    Reads url id row source := by
  simp only [readRow, bind_eq_ok, ensure_eq_ok] at h
  obtain ⟨_, hid, _, hroot, _, hdisplay, h⟩ := h
  obtain ⟨text, hroot⟩ := toBool_eq_true.mp hroot
  obtain ⟨_, hdisplay⟩ := toBool_eq_true.mp hdisplay
  obtain ⟨htext, hrootLength⟩ := pathText_ok hroot
  obtain rfl := Option.some.inj htext
  have hsize : id.utf8ByteSize = 36 := by
    rw [utf8ByteSize_validId hid]
    decide
  have hlocal := lengthWithin_localRepo hsize
  have hname := boundedText_ok hdisplay
  cases hkind : row.kind with
  | managed =>
    simp only [hkind, readManaged, bind_eq_ok, ensure_eq_ok, orFail_eq_ok, pure_eq_ok] at h
    obtain ⟨_, ⟨key, hkey, cloneUrl, hclone, _, hvalid, _, -, _, ⟨-, hrepo⟩, rfl⟩, rfl⟩ := h
    obtain ⟨hkeyLength, hcloneLength, hrepoLength⟩ := validate_lengths hvalid
    have hrepoKey : lengthWithin MAX_REPO_BYTES row.repoKey = true := by
      rw [hrepo]
      cases hgithub : row.githubRepo with
      | none => exact hlocal
      | some repo => exact hrepoLength repo hgithub
    have hgithub : row.githubRepo.all (lengthWithin MAX_REPO_BYTES) = true := by
      cases hgithub : row.githubRepo with
      | none => rfl
      | some repo => exact hrepoLength repo hgithub
    refine ⟨rfl, rfl, rfl, rfl, hid, by simp [hkind], ?_, ?_⟩
    · intro o ho
      obtain rfl := Option.some.inj ho
      exact ⟨hvalid, hkey, hclone, rfl, rfl⟩
    · simp [rowWithin, hsize, hrepoKey, hrootLength, hname, hkey, hclone, hkeyLength, hcloneLength,
        hgithub]
  | localRoot =>
    simp only [hkind, readLocal, bind_eq_ok, ensure_eq_ok, pure_eq_ok] at h
    obtain ⟨_, ⟨_, ⟨hkey, hclone, hgithub, -, hrepo⟩, rfl⟩, rfl⟩ := h
    refine ⟨rfl, rfl, rfl, rfl, hid, by simp [hkind], by simp, ?_⟩
    simp [rowWithin, hsize, hrepo, hlocal, hrootLength, hname, hkey, hclone, hgithub]

/-! ### Reading -/

theorem readOne_ok {found : Option RegisteredSource} (h : readOne url s field value = .ok found) :
    (∀ source, found = some source → ∃ id row, s.rows.find? id = some row
      ∧ field.matches value id row = true
      ∧ readRow url s.appDataDir s.registryId id row = .ok source)
    ∧ (found = none → ∀ id row, s.rows.find? id = some row → field.matches value id row = false) := by
  simp only [readOne, bind_eq_ok, ensure_eq_ok, pure_eq_ok] at h
  obtain ⟨sources, hread, _, hone, rfl⟩ := h
  have hpairs := mapM_eq_ok hread
  constructor
  · intro source hsource
    have hsources : sources = [source] := by
      cases sources with
      | nil => cases hsource
      | cons x rest =>
        obtain rfl := List.length_eq_zero_iff.mp (Nat.le_zero.mp (Nat.le_of_succ_le_succ hone))
        rw [show x = source from Option.some.inj hsource]
    rw [hsources] at hpairs
    obtain ⟨r, rest, hrow, -, hfilter⟩ := List.forall₂_cons_right_iff.mp hpairs
    obtain ⟨hmem, hmatch⟩ := List.mem_filter.mp (hfilter ▸ List.mem_cons_self : r ∈ _)
    exact ⟨r.1, r.2, Table.find?_eq_some_iff.mpr hmem, by simpa using hmatch, hrow⟩
  · intro hnone id row hrow
    obtain rfl := List.getLast?_eq_none_iff.mp hnone
    have hfilter := List.forall₂_nil_right_iff.mp hpairs
    have hout := List.filter_eq_nil_iff.mp hfilter (id, row) (Table.find?_eq_some_iff.mp hrow)
    simpa using hout

/-- The invariant. -/
structure Valid (url : UrlCrate) (s : Registry) : Prop where
  id : validId s.registryId "reg_" = true
  row : ∀ id row, s.rows.find? id = some row →
    ∃ source, readRow url s.appDataDir s.registryId id row = .ok source
  repoKey : ∀ id id' row row', s.rows.find? id = some row → s.rows.find? id' = some row' →
    row.repoKey = row'.repoKey → id = id'
  root : ∀ id id' row row', s.rows.find? id = some row → s.rows.find? id' = some row' →
    row.root = row'.root → id = id'
  originKey : ∀ id id' row row' key, s.rows.find? id = some row → s.rows.find? id' = some row' →
    row.originKey = some key → row'.originKey = some key → id = id'

section

variable (h : Valid url s)
include h

theorem Valid.checkState {expected : Option String}
    (hexpected : ∀ id ∈ expected, id = s.registryId) :
    checkState s expected = .ok s.registryId := by
  have hsize : s.registryId.utf8ByteSize = 36 := by
    rw [utf8ByteSize_validId h.id]
    decide +kernel
  simp only [Sources.checkState, bind_eq_ok, ensure_eq_ok, pure_eq_ok]
  refine ⟨(), hsize, (), ⟨h.id, hexpected⟩, (), ?_, trivial⟩
  intro r hr
  obtain ⟨source, hsource⟩ := h.row r.1 r.2 (Table.find?_eq_some_iff.mpr hr)
  exact (readRow_ok hsource).within

theorem Valid.readSources (filter : Option (Field × String)) :
    ∃ sources, readSources url s filter = .ok sources := by
  refine mapM_ok fun r hr => ?_
  exact h.row r.1 r.2 (Table.find?_eq_some_iff.mpr (List.mem_of_mem_filter hr))

theorem Valid.matches_unique {id' : String} {row' : SourceRow}
    (hrow : s.rows.find? id = some row) (hrow' : s.rows.find? id' = some row')
    (hmatch : field.matches value id row = true) (hmatch' : field.matches value id' row' = true) :
    id = id' := by
  cases field with
  | sourceId =>
    simp only [Field.matches, beq_iff_eq] at hmatch hmatch'
    exact hmatch.trans hmatch'.symm
  | repoKey =>
    simp only [Field.matches, beq_iff_eq] at hmatch hmatch'
    exact h.repoKey _ _ _ _ hrow hrow' (hmatch.trans hmatch'.symm)
  | root =>
    simp only [Field.matches, beq_iff_eq] at hmatch hmatch'
    exact h.root _ _ _ _ hrow hrow' (hmatch.trans hmatch'.symm)
  | originKey =>
    simp only [Field.matches, beq_iff_eq] at hmatch hmatch'
    exact h.originKey _ _ _ _ _ hrow hrow' hmatch hmatch'

theorem Valid.readOne (field : Field) (value : String) :
    ∃ found, readOne url s field value = .ok found := by
  obtain ⟨sources, hread⟩ := h.readSources (some (field, value))
  have hlength := (mapM_eq_ok hread).length_eq
  have hone : (s.rows.rows.filter fun r => (some (field, value)).all fun f =>
      f.1.matches f.2 r.1 r.2).length ≤ 1 := by
    have hsorted := s.rows.sorted.filter fun r => (some (field, value)).all fun f =>
      f.1.matches f.2 r.1 r.2
    have hsame : ∀ r ∈ s.rows.rows.filter (fun r => (some (field, value)).all fun f =>
        f.1.matches f.2 r.1 r.2), ∀ r' ∈ s.rows.rows.filter (fun r => (some (field, value)).all fun f =>
        f.1.matches f.2 r.1 r.2), r.1 = r'.1 := by
      intro r hr r' hr'
      obtain ⟨hr, hm⟩ := List.mem_filter.mp hr
      obtain ⟨hr', hm'⟩ := List.mem_filter.mp hr'
      exact h.matches_unique (Table.find?_eq_some_iff.mpr hr) (Table.find?_eq_some_iff.mpr hr')
        (by simpa using hm) (by simpa using hm')
    generalize s.rows.rows.filter (fun r => (some (field, value)).all fun f =>
      f.1.matches f.2 r.1 r.2) = l at hsorted hsame ⊢
    match l with
    | [] => simp
    | [_] => simp
    | r :: r' :: rest =>
      have hlt := (List.pairwise_cons.mp hsorted).1 r' (by simp)
      exact absurd (hsame r (by simp) r' (by simp)) (ne_of_lt hlt)
  refine ⟨sources.getLast?, ?_⟩
  simp only [Sources.readOne, bind_eq_ok, ensure_eq_ok, pure_eq_ok]
  exact ⟨sources, hread, (), hlength ▸ hone, rfl⟩

/-- **Reads of a valid registry succeed.** -/
theorem Valid.readable :
    (∀ field value, ∃ found, lookup url s field value = .ok found)
      ∧ (∃ sources, list url s = .ok sources)
      ∧ ∀ fs dir, canonicalDirectory fs dir = .ok s.appDataDir →
        reopen url fs dir s = .ok s := by
  have hstate : Sources.checkState s (some s.registryId) = .ok s.registryId :=
    h.checkState (by simp)
  obtain ⟨sources, hall⟩ := h.readSources none
  refine ⟨fun field value => ?_, ?_, fun fs dir hdir => ?_⟩
  · obtain ⟨found, hfound⟩ := h.readOne field value
    exact ⟨found, bind_eq_ok.mpr ⟨_, hstate, hfound⟩⟩
  · exact ⟨sources, bind_eq_ok.mpr ⟨_, hstate, hall⟩⟩
  · have hstate' : Sources.checkState s none = .ok s.registryId := h.checkState (by simp)
    simp only [reopen, bind_eq_ok, pure_eq_ok]
    exact ⟨_, hdir, _, hstate', _, hall, rfl⟩

end

/-! ### Registering -/

theorem insertAndRead_ok (h : insertAndRead url s id row = .ok (source, s')) :
    s' = { s with rows := s.rows.put id row } ∧ s.rows.find? id = none
      ∧ (∀ r ∈ s.rows.rows, r.2.repoKey ≠ row.repoKey) ∧ (∀ r ∈ s.rows.rows, r.2.root ≠ row.root)
      ∧ (∀ key ∈ row.originKey, ∀ r ∈ s.rows.rows, r.2.originKey ≠ some key)
      ∧ readRow url s.appDataDir s.registryId id row = .ok source := by
  simp only [insertAndRead, insertSource, bind_eq_ok, ensure_eq_ok, orFail_eq_ok, pure_eq_ok] at h
  obtain ⟨_, ⟨_, ⟨hfresh, hrepo, hroot, horigin⟩, rfl⟩, found, hfound, source', rfl, heq⟩ := h
  obtain ⟨rfl, rfl⟩ := Prod.mk.inj heq
  obtain ⟨id', row', hrow', hmatch, hread⟩ := (readOne_ok hfound).1 source' rfl
  obtain rfl : id' = id := by simpa [Field.matches] using hmatch
  have hrow : (s.rows.put id' row).find? id' = some row := by simp
  obtain rfl := Option.some.inj (hrow.symm.trans hrow')
  exact ⟨rfl, hfresh, hrepo, hroot, horigin, hread⟩

theorem Valid.insert (h : Valid url s) (hinsert : insertAndRead url s id row = .ok (source, s')) :
    Valid url s' := by
  obtain ⟨rfl, hfresh, hrepo, hroot, horigin, hread⟩ := insertAndRead_ok hinsert
  have hcases : ∀ {id' : String} {row' : SourceRow}, (s.rows.put id row).find? id' = some row' →
      (id' = id ∧ row' = row) ∨ (id' ≠ id ∧ s.rows.find? id' = some row') :=
    Table.find?_put_eq_some.mp
  refine ⟨h.id, ?_, ?_, ?_, ?_⟩
  · intro id' row' hrow'
    rcases hcases hrow' with ⟨rfl, rfl⟩ | ⟨-, hold⟩
    · exact ⟨source, hread⟩
    · exact h.row id' row' hold
  · intro id1 id2 row1 row2 h1 h2 hsame
    rcases hcases h1 with ⟨rfl, rfl⟩ | ⟨-, hold1⟩
    · rcases hcases h2 with ⟨rfl, rfl⟩ | ⟨-, hold2⟩
      · rfl
      · exact absurd hsame.symm (hrepo _ (Table.find?_eq_some_iff.mp hold2))
    · rcases hcases h2 with ⟨rfl, rfl⟩ | ⟨-, hold2⟩
      · exact absurd hsame (hrepo _ (Table.find?_eq_some_iff.mp hold1))
      · exact h.repoKey _ _ _ _ hold1 hold2 hsame
  · intro id1 id2 row1 row2 h1 h2 hsame
    rcases hcases h1 with ⟨rfl, rfl⟩ | ⟨-, hold1⟩
    · rcases hcases h2 with ⟨rfl, rfl⟩ | ⟨-, hold2⟩
      · rfl
      · exact absurd hsame.symm (hroot _ (Table.find?_eq_some_iff.mp hold2))
    · rcases hcases h2 with ⟨rfl, rfl⟩ | ⟨-, hold2⟩
      · exact absurd hsame (hroot _ (Table.find?_eq_some_iff.mp hold1))
      · exact h.root _ _ _ _ hold1 hold2 hsame
  · intro id1 id2 row1 row2 key h1 h2 hkey1 hkey2
    rcases hcases h1 with ⟨rfl, rfl⟩ | ⟨-, hold1⟩
    · rcases hcases h2 with ⟨rfl, rfl⟩ | ⟨-, hold2⟩
      · rfl
      · exact absurd hkey2 (horigin key hkey1 _ (Table.find?_eq_some_iff.mp hold2))
    · rcases hcases h2 with ⟨rfl, rfl⟩ | ⟨-, hold2⟩
      · exact absurd hkey1 (horigin key hkey2 _ (Table.find?_eq_some_iff.mp hold1))
      · exact h.originKey _ _ _ _ key hold1 hold2 hkey1 hkey2

/-- Every row of one registry is in the other, the same but for its readiness. -/
def Kept (s s' : Registry) : Prop :=
  s'.registryId = s.registryId ∧ ∀ id row, s.rows.find? id = some row →
    ∃ ready, s'.rows.find? id = some { row with ready := ready }

theorem Kept.refl (s : Registry) : Kept s s := ⟨rfl, fun _ row h => ⟨row.ready, h⟩⟩

theorem Kept.trans {s₂ s₃ : Registry} (h : Kept s₁ s₂) (h' : Kept s₂ s₃) : Kept s₁ s₃ := by
  refine ⟨h'.1.trans h.1, fun id row hrow => ?_⟩
  obtain ⟨ready, hrow2⟩ := h.2 id row hrow
  obtain ⟨ready', hrow3⟩ := h'.2 id _ hrow2
  exact ⟨ready', hrow3⟩

theorem insertAndRead_kept (hinsert : insertAndRead url s id row = .ok (source, s')) :
    Kept s s' := by
  obtain ⟨rfl, hfresh, -⟩ := insertAndRead_ok hinsert
  refine ⟨rfl, fun id' row' hrow' => ⟨row'.ready, ?_⟩⟩
  have hne : id' ≠ id := fun heq => by simp [heq, hfresh] at hrow'
  show (s.rows.put id row).find? id' = _
  rw [Table.find?_put, if_neg hne, hrow']

/-- What a registration did: it returned the row that matches, or inserted it. -/
structure Registered (url : UrlCrate) (field : Field) (value : String) (s s' : Registry)
    (source : RegisteredSource) : Prop where
  valid : Valid url s → Valid url s'
  kept : Kept s s'
  row : ∃ row, s'.rows.find? source.sourceId = some row
    ∧ field.matches value source.sourceId row = true
    ∧ readRow url s'.appDataDir s'.registryId source.sourceId row = .ok source

theorem readOne_registered (h : readOne url s field value = .ok (some source)) :
    Registered url field value s s source := by
  obtain ⟨id, row, hrow, hmatch, hread⟩ := (readOne_ok h).1 source rfl
  have hid := (readRow_ok hread).sourceId
  exact ⟨fun h => h, .refl s, row, hid ▸ hrow, hid ▸ hmatch, hid ▸ hread⟩

theorem insertAndRead_registered (h : insertAndRead url s id row = .ok (source, s'))
    (hmatch : field.matches value id row = true) : Registered url field value s s' source := by
  refine ⟨fun hvalid => hvalid.insert h, insertAndRead_kept h, ?_⟩
  obtain ⟨rfl, -, -, -, -, hread⟩ := insertAndRead_ok h
  have hid := (readRow_ok hread).sourceId
  exact ⟨row, by simp [hid], hid ▸ hmatch, hid ▸ hread⟩

theorem registerLocal_ok (h : registerLocal url fs draws path s = .ok (source, s')) :
    ∃ root, canonicalDirectory fs path = .ok root ∧ Registered url .root root s s' source := by
  simp only [registerLocal, bind_eq_ok] at h
  obtain ⟨root, hroot, _, -, _, -, found, hfound, h⟩ := h
  refine ⟨root, hroot, ?_⟩
  cases found with
  | some source' =>
    obtain ⟨rfl, rfl⟩ := Prod.mk.inj (pure_eq_ok.mp h)
    exact readOne_registered hfound
  | none =>
    simp only [registerNewLocal, bind_eq_ok] at h
    obtain ⟨id, -, hinsert⟩ := h
    exact insertAndRead_registered hinsert (by simp [Field.matches])

theorem reserveManaged_ok (h : reserveManaged url fs draws input s = .ok (source, s')) :
    ∃ origin, parseManagedOrigin url fs input = .ok origin
      ∧ boundedText origin.displayName MAX_DISPLAY_BYTES = .ok ()
      ∧ Registered url .originKey origin.key s s' source := by
  simp only [reserveManaged, bind_eq_ok, orFail_eq_ok, ensure_eq_ok] at h
  obtain ⟨_, -, origin, hparse, _, -, _, hdisplay, _, -, found, hfound, h⟩ := h
  have horigin : parseManagedOrigin url fs input = .ok origin := by
    cases hresult : parseManagedOrigin url fs input with
    | error e =>
      rw [hresult] at hparse
      cases hparse
    | ok o =>
      rw [hresult] at hparse
      rw [Option.some.inj hparse]
  refine ⟨origin, horigin, hdisplay, ?_⟩
  cases found with
  | some source' =>
    obtain ⟨rfl, rfl⟩ := Prod.mk.inj (pure_eq_ok.mp h)
    exact readOne_registered hfound
  | none =>
    simp only [reserveNewManaged, bind_eq_ok] at h
    obtain ⟨id, -, _, -, root, -, _, -, hinsert⟩ := h
    exact insertAndRead_registered hinsert (by simp [Field.matches])

/-! ### Readiness and reopening -/

theorem readRow_ready {dir : String} (h : readRow url dir reg id row = .ok source)
    (hmanaged : row.kind = .managed) (ready : Bool) :
    readRow url dir reg id { row with ready := ready } = .ok { source with ready := ready } := by
  simp only [readRow, hmanaged, readManaged, bind_eq_ok, ensure_eq_ok, orFail_eq_ok, pure_eq_ok] at h ⊢
  obtain ⟨_, hid, _, hroot, _, hdisplay, o, ho, rfl⟩ := h
  exact ⟨(), hid, (), hroot, (), hdisplay, o, ho, rfl⟩

theorem setReadyEach_ok {ready : Bool} : ∀ {ids : List String} {s s' : Registry},
    setReadyEach url ready ids s = .ok s' → (Valid url s → Valid url s') ∧ Kept s s'
  | [], s, s', h => by
    obtain rfl := Except.ok.inj h
    exact ⟨fun h => h, .refl _⟩
  | id :: rest, s, s', h => by
    simp only [setReadyEach, updateReady, bind_eq_ok, ensure_eq_ok, orFail_eq_ok, pure_eq_ok] at h
    obtain ⟨found, hfound, source, rfl, _, hmanaged, _, ⟨row, hrow, rfl⟩, hrest⟩ := h
    obtain ⟨id', row', hrow', hmatch, hread⟩ := (readOne_ok hfound).1 source rfl
    obtain rfl : id' = id := by simpa [Field.matches] using hmatch
    obtain rfl := Option.some.inj (hrow.symm.trans hrow')
    have hkind : row.kind = .managed := (readRow_ok hread).managed.mp hmanaged
    obtain ⟨hvalid, hkept⟩ := setReadyEach_ok hrest
    -- Every lookup gives the old row, but for its readiness.
    have hback : ∀ {id : String} {row1 : SourceRow},
        (s.rows.put id' { row with ready := ready }).find? id = some row1 →
        ∃ row0, s.rows.find? id = some row0 ∧ row1.repoKey = row0.repoKey
          ∧ row1.root = row0.root ∧ row1.originKey = row0.originKey := by
      intro id row1 hrow1
      rcases Table.find?_put_eq_some.mp hrow1 with ⟨rfl, rfl⟩ | ⟨-, hold⟩
      · exact ⟨row, hrow, rfl, rfl, rfl⟩
      · exact ⟨row1, hold, rfl, rfl, rfl⟩
    have hfirst : Kept s { s with rows := s.rows.put id' { row with ready := ready } } := by
      refine ⟨rfl, fun id1 row1 hrow1 => ?_⟩
      by_cases hid : id1 = id'
      · obtain rfl := Option.some.inj (hrow.symm.trans (hid ▸ hrow1))
        exact ⟨ready, by simp [hid]⟩
      · exact ⟨row1.ready, by simpa [hid] using hrow1⟩
    refine ⟨fun h => hvalid ⟨h.id, ?_, ?_, ?_, ?_⟩, hfirst.trans hkept⟩
    · intro id1 row1 hrow1
      rcases Table.find?_put_eq_some.mp hrow1 with ⟨rfl, rfl⟩ | ⟨-, hold⟩
      · exact ⟨_, readRow_ready hread hkind ready⟩
      · exact h.row id1 row1 hold
    · intro id1 id2 row1 row2 h1 h2 hsame
      obtain ⟨_, h1, hk1, -, -⟩ := hback h1
      obtain ⟨_, h2, hk2, -, -⟩ := hback h2
      exact h.repoKey _ _ _ _ h1 h2 (hk1 ▸ hk2 ▸ hsame)
    · intro id1 id2 row1 row2 h1 h2 hsame
      obtain ⟨_, h1, -, hk1, -⟩ := hback h1
      obtain ⟨_, h2, -, hk2, -⟩ := hback h2
      exact h.root _ _ _ _ h1 h2 (hk1 ▸ hk2 ▸ hsame)
    · intro id1 id2 row1 row2 key h1 h2 hkey1 hkey2
      obtain ⟨_, h1, -, -, hk1⟩ := hback h1
      obtain ⟨_, h2, -, -, hk2⟩ := hback h2
      exact h.originKey _ _ _ _ key h1 h2 (hk1 ▸ hkey1) (hk2 ▸ hkey2)

theorem reopen_ok (h : reopen url fs dir s = .ok s') :
    (Valid url s → Valid url s') ∧ Kept s s' := by
  simp only [reopen, bind_eq_ok, pure_eq_ok] at h
  obtain ⟨appDataDir, -, _, -, sources, hread, rfl⟩ := h
  refine ⟨fun hvalid => ⟨hvalid.id, ?_, hvalid.repoKey, hvalid.root, hvalid.originKey⟩,
    rfl, fun _ row hrow => ⟨row.ready, hrow⟩⟩
  intro id row hrow
  -- Every row was read under the new directory.
  have hall := mapM_eq_ok hread
  have hmem : (id, row) ∈ s.rows.rows.filter fun r => (none : Option (Field × String)).all fun f =>
      f.1.matches f.2 r.1 r.2 :=
    List.mem_filter.mpr ⟨Table.find?_eq_some_iff.mp hrow, rfl⟩
  obtain ⟨i, hi, hget⟩ := List.getElem_of_mem hmem
  have hget' := hall.get hi (hall.length_eq ▸ hi)
  rw [List.get_eq_getElem, List.get_eq_getElem, hget] at hget'
  exact ⟨_, hget'⟩

/-! ### Calls -/

theorem step_valid_kept {out : Except RegistryError (Option RegisteredSource)}
    (h : (Registry.machine url).step s call = (s', out)) :
    (Valid url s → Valid url s') ∧ Kept s s' := by
  have htransact : transact (call.run url) s = (s', out) := h
  cases out with
  | error e =>
    obtain rfl := (transact_error.mp htransact).2
    exact ⟨fun h => h, .refl _⟩
  | ok found =>
    have hbody := transact_ok.mp htransact
    simp only [Call.run, bind_eq_ok, pure_eq_ok] at hbody
    obtain ⟨_, hperform, _, -, rfl⟩ := hbody
    obtain ⟨op, fault⟩ := call
    cases op with
    | registerLocal fs draws path =>
      simp only [perform, bind_eq_ok, pure_eq_ok] at hperform
      obtain ⟨⟨source, s₁⟩, hregister, heq⟩ := hperform
      obtain ⟨-, rfl⟩ := Prod.mk.inj heq
      obtain ⟨_, -, hregistered⟩ := registerLocal_ok hregister
      exact ⟨hregistered.valid, hregistered.kept⟩
    | reserveManaged fs draws input =>
      simp only [perform, bind_eq_ok, pure_eq_ok] at hperform
      obtain ⟨⟨source, s₁⟩, hregister, heq⟩ := hperform
      obtain ⟨-, rfl⟩ := Prod.mk.inj heq
      obtain ⟨_, -, -, hregistered⟩ := reserveManaged_ok hregister
      exact ⟨hregistered.valid, hregistered.kept⟩
    | setReadyBatch ids ready =>
      simp only [perform, setReadyBatch, bind_eq_ok, pure_eq_ok] at hperform
      obtain ⟨_, ⟨_, -, _, -, heach⟩, heq⟩ := hperform
      obtain ⟨-, rfl⟩ := Prod.mk.inj heq
      exact setReadyEach_ok heach
    | reopen fs dir =>
      simp only [perform, bind_eq_ok, pure_eq_ok] at hperform
      obtain ⟨_, hreopen, heq⟩ := hperform
      obtain ⟨-, rfl⟩ := Prod.mk.inj heq
      exact reopen_ok hreopen

theorem create_valid {draw : String} (h : create fs draw dir = .ok s) :
    Valid url s := by
  simp only [create, bind_eq_ok, ensure_eq_ok, pure_eq_ok] at h
  obtain ⟨_, -, _, hid, _, -, rfl⟩ := h
  exact ⟨hid, by simp, by simp, by simp, by simp⟩

theorem reachable_valid (h : (Registry.machine url).Reachable s) : Valid url s := by
  refine h.invariant ?_ ?_
  · rintro s ⟨fs, draw, dir, hcreate⟩
    exact create_valid hcreate
  · intro s call s' out hs _ hstep
    exact (step_valid_kept hstep).1 hs

theorem steps_kept {tr : List (Event Registry Call (Except RegistryError (Option RegisteredSource)))}
    (h : (Registry.machine url).Steps s tr s') : Kept s s' := by
  induction h with
  | refl => exact .refl s
  | snoc _ _ hstep ih => exact ih.trans (step_valid_kept hstep).2

/-! ### Registering again -/

/-- The same identity and the same repository key. -/
def SameSource (source source' : RegisteredSource) : Prop :=
  source'.sourceId = source.sourceId ∧ source'.repoKey = source.repoKey

theorem Registered.again (h : Registered url field value s₀ s₁ source) (hkept : Kept s₁ s)
    (hs : Valid url s) (hfield : ∀ id row ready, field.matches value id { row with ready := ready }
      = field.matches value id row) :
    ∃ source', readOne url s field value = .ok (some source') ∧ SameSource source source' := by
  obtain ⟨row, hrow, hmatch, hread⟩ := h.row
  obtain ⟨ready, hrow'⟩ := hkept.2 _ _ hrow
  rw [← hfield _ _ ready] at hmatch
  obtain ⟨found, hfound⟩ := hs.readOne field value
  cases found with
  | none =>
    rw [(readOne_ok hfound).2 rfl _ _ hrow'] at hmatch
    cases hmatch
  | some source' =>
    obtain ⟨id, row', hfind, hmatch', hread'⟩ := (readOne_ok hfound).1 source' rfl
    have hid := hs.matches_unique hfind hrow' hmatch' hmatch
    subst hid
    obtain rfl := Option.some.inj (hrow'.symm.trans hfind)
    have hreads := readRow_ok hread
    have hreads' := readRow_ok hread'
    exact ⟨source', hfound, hreads'.sourceId, hreads'.repoKey.trans hreads.repoKey.symm⟩

theorem registerLocal_again {path' : Option String}
    (h : registerLocal url fs draws path s₀ = .ok (source, s₁)) (hkept : Kept s₁ s)
    (hs : Valid url s) (hsame : canonicalDirectory fs' path' = canonicalDirectory fs path) :
    ∃ source', registerLocal url fs' draws' path' s = .ok (source', s) ∧ SameSource source source' := by
  obtain ⟨root, hroot, hregistered⟩ := registerLocal_ok h
  have hdisplay : boundedText (localDisplayName root) MAX_DISPLAY_BYTES = .ok () := by
    simp only [registerLocal, bind_eq_ok] at h
    obtain ⟨root', hroot', _, hdisplay, -⟩ := h
    rwa [Except.ok.inj (hroot.symm.trans hroot')]
  obtain ⟨source', hfound, hsource⟩ := hregistered.again hkept hs fun _ _ _ => rfl
  refine ⟨source', ?_, hsource⟩
  simp only [registerLocal, bind_eq_ok]
  exact ⟨root, hsame.trans hroot, (), hdisplay, _, hs.checkState (by simp), _, hfound, rfl⟩

theorem reserveManaged_again {input' : String} {origin origin' : ManagedOrigin}
    (h : reserveManaged url fs draws input s₀ = .ok (source, s₁)) (hkept : Kept s₁ s)
    (hs : Valid url s) (horigin : parseManagedOrigin url fs input = .ok origin)
    (horigin' : parseManagedOrigin url fs' input' = .ok origin') (hkey : origin'.key = origin.key)
    (hinput : boundedText input' MAX_ORIGIN_TEXT_BYTES = .ok ()) :
    ∃ source', reserveManaged url fs' draws' input' s = .ok (source', s)
      ∧ SameSource source source' := by
  have hvalid : ∀ {fs : FileSystem} {input : String} {origin : ManagedOrigin},
      parseManagedOrigin url fs input = .ok origin → origin.validate url = .ok () := by
    intro fs input origin hparse
    simp only [parseManagedOrigin, bind_eq_ok, pure_eq_ok] at hparse
    obtain ⟨_, -, _, -, _, hvalid, rfl⟩ := hparse
    exact hvalid
  obtain ⟨o, ho, hdisplay, hregistered⟩ := reserveManaged_ok h
  obtain rfl := Except.ok.inj (ho.symm.trans horigin)
  obtain rfl := validate_unique (hvalid horigin') (hvalid ho) hkey
  obtain ⟨source', hfound, hsource⟩ := hregistered.again hkept hs fun _ _ _ => rfl
  refine ⟨source', ?_, hsource⟩
  simp only [reserveManaged, bind_eq_ok, orFail_eq_ok, ensure_eq_ok, horigin']
  exact ⟨(), hinput, _, rfl, (), hvalid ho, (), hdisplay, _, hs.checkState (by simp), _, hfound, rfl⟩

/-! ### The result -/

theorem run_ok {answer : Option RegisteredSource} (h : transact (call.run url) s = (s', .ok answer))
    :
    perform url call.op s = .ok (answer, s') := by
  have hbody := transact_ok.mp h
  simp only [Call.run, bind_eq_ok, pure_eq_ok] at hbody
  obtain ⟨_, hperform, _, -, rfl⟩ := hbody
  exact hperform

theorem answer_ok {run : Except RegistryError (RegisteredSource × Registry)}
    (h : (do let (source, s₁) ← run; return (some source, s₁)) = .ok (some source, s')) :
    run = .ok (source, s') := by
  simp only [bind_eq_ok, pure_eq_ok] at h
  obtain ⟨⟨source', s₁⟩, hrun, heq⟩ := h
  obtain ⟨hsource, rfl⟩ := Prod.mk.inj heq
  obtain rfl := Option.some.inj hsource
  exact hrun

/-- **The source registry.**  After any calls on a fresh registry: every lookup, listing and
opening succeeds; a root and an origin belong to one source, whose identity and repository
key stay, so that registering again returns it; all spellings of a repository on GitHub are
one origin, and the clone URL of a stored origin is parsed as that origin; and a call that
failed changed nothing. -/
theorem source_registry (hurl : UrlSpec url) {s₀ : Registry}
    {tr : List (Event Registry Call (Except RegistryError (Option RegisteredSource)))}
    (h₀ : (Registry.machine url).init s₀) (h : (Registry.machine url).Steps s₀ tr s) :
    ((∀ field value, ∃ found, lookup url s field value = .ok found)
      ∧ (∃ sources, list url s = .ok sources)
      ∧ ∀ fs dir, canonicalDirectory fs dir = .ok s.appDataDir → reopen url fs dir s = .ok s)
    ∧ (∀ id id' row row', s.rows.find? id = some row → s.rows.find? id' = some row' →
      (row.root = row'.root ∨ ∃ key, row.originKey = some key ∧ row'.originKey = some key) →
      id = id')
    ∧ (∀ tr₁ e tr₂ id row, tr = tr₁ ++ e :: tr₂ → e.pre.rows.find? id = some row →
      ∃ row', s.rows.find? id = some row' ∧ row'.repoKey = row.repoKey ∧ row'.root = row.root
        ∧ row'.originKey = row.originKey)
    ∧ (∀ tr₁ e tr₂ fs draws path fault source, tr = tr₁ ++ e :: tr₂ →
      e.op = ⟨.registerLocal fs draws path, fault⟩ → e.out = .ok (some source) →
      ∀ fs' draws' path', canonicalDirectory fs' path' = canonicalDirectory fs path →
      ∃ source', registerLocal url fs' draws' path' s = .ok (source', s)
        ∧ SameSource source source')
    ∧ (∀ tr₁ e tr₂ fs draws input fault source, tr = tr₁ ++ e :: tr₂ →
      e.op = ⟨.reserveManaged fs draws input, fault⟩ → e.out = .ok (some source) →
      ∀ fs' draws' input' origin origin', parseManagedOrigin url fs input = .ok origin →
      parseManagedOrigin url fs' input' = .ok origin' → origin'.key = origin.key →
      boundedText input' MAX_ORIGIN_TEXT_BYTES = .ok () →
      ∃ source', reserveManaged url fs' draws' input' s = .ok (source', s)
        ∧ SameSource source source')
    ∧ (∀ fs lead owner name git slashes o, Lead lead → ownerValid owner = true →
      nameValid name = true → withoutGit (lower name) = lower name → GitSuffix git →
      (parseManagedOrigin url fs (String.ofList (lead ++ repoPath owner name git slashes)) = .ok o
        ↔ (String.ofList (lead ++ repoPath owner name git slashes)).utf8ByteSize ≤ MAX_ORIGIN_BYTES
          ∧ o = githubRepo (lower owner) (lower name)))
    ∧ (∀ field value source o fs, lookup url s field value = .ok (some source) →
      source.origin = some o → (∀ path, o.githubRepo = none → mirrorPath url o.cloneUrl = some path →
        fs.canonicalize (some path) = some (some path) ∧ fs.isDir path = true) →
      parseManagedOrigin url fs o.cloneUrl = .ok o)
    ∧ ∀ e ∈ tr, (∃ error, e.out = .error error) → e.post = e.pre := by
  have hs : Valid url s := reachable_valid ⟨s₀, tr, h₀, h⟩
  refine ⟨hs.readable, ?_, ?_, ?_, ?_, ?_, ?_, ?_⟩
  · rintro id id' row row' hrow hrow' (hroot | ⟨key, hkey, hkey'⟩)
    · exact hs.root _ _ _ _ hrow hrow' hroot
    · exact hs.originKey _ _ _ _ key hrow hrow' hkey hkey'
  · intro tr₁ e tr₂ id row htr hrow
    obtain ⟨-, -, hstep, hafter⟩ := h.around htr
    obtain ⟨ready, hrow'⟩ := ((step_valid_kept hstep).2.trans (steps_kept hafter)).2 id row hrow
    exact ⟨_, hrow', rfl, rfl, rfl⟩
  · intro tr₁ e tr₂ fs draws path fault source htr hop hout fs' draws' path' hsame
    obtain ⟨-, -, hstep, hafter⟩ := h.around htr
    -- the answer of a call is the one of its transaction
    have hregister : registerLocal url fs draws path e.pre = .ok (source, e.post) := by
      rw [hout] at hstep
      have hperform := run_ok hstep
      rw [hop] at hperform
      exact answer_ok hperform
    exact registerLocal_again hregister (steps_kept hafter) hs hsame
  · intro tr₁ e tr₂ fs draws input fault source htr hop hout fs' draws' input' origin origin' horigin
      horigin' hkey hinput
    obtain ⟨-, -, hstep, hafter⟩ := h.around htr
    have hregister : reserveManaged url fs draws input e.pre = .ok (source, e.post) := by
      rw [hout] at hstep
      have hperform := run_ok hstep
      rw [hop] at hperform
      exact answer_ok hperform
    exact reserveManaged_again hregister (steps_kept hafter) hs horigin horigin' hkey hinput
  · intro fs lead owner name git slashes o hlead howner hname hplain hgit
    exact parse_spelling hurl fs hlead howner hname hplain hgit slashes o
  · intro field value source o fs hlookup ho hmirror
    obtain ⟨_, -, hfound⟩ := bind_eq_ok.mp hlookup
    obtain ⟨id, row, -, -, hread⟩ := (readOne_ok hfound).1 source rfl
    obtain ⟨hvalid, -⟩ := (readRow_ok hread).origin o ho
    exact parse_cloneUrl hurl hvalid hmirror
  · rintro e he ⟨error, hout⟩
    obtain ⟨_, _, -, -, -, hstep, -⟩ := h.split he
    rw [hout] at hstep
    exact (transact_error.mp (show transact (e.op.run url) e.pre = _ from hstep)).2

/-! ### A run -/

/-- URLs on GitHub with a plain path, which are all this run has. -/
def sampleUrl : UrlCrate where
  parse text :=
    let path := text.toList.drop 19
    if lower (text.toList.take 19) = "https://github.com/".toList
      ∧ (path.all fun c => repoChar c || c == '/') = true ∧ ['.'] ∉ path.splitOn '/'
      ∧ ['.', '.'] ∉ path.splitOn '/' then
      some ⟨"https", "", none, some "github.com", none, String.ofList ('/' :: path), none, none⟩
    else none
  toFilePath _ := none
  fromFilePath _ := none

theorem sampleUrl_spec : UrlSpec sampleUrl where
  github lead path hlead hchars hdot hdots := by
    have hlen : lead.length = 19 := by
      have hlower := congrArg List.length hlead
      rw [lower, List.length_map] at hlower
      rw [hlower]
      decide
    have htake : (lead ++ path).take 19 = lead := by rw [← hlen, List.take_left]
    have hdrop : (lead ++ path).drop 19 = path := by rw [← hlen, List.drop_left]
    simp only [sampleUrl, String.toList_ofList, htake, hdrop]
    rw [if_pos ⟨hlead, hchars, hdot, hdots⟩]
  file path text h := by cases h

/-- A file system of directories without links. -/
def sampleFs : FileSystem := ⟨fun path => some path, fun _ => true⟩

def sampleDraws (n : ℕ) (_ : ℕ) : String := String.ofList (List.replicate 31 '0' ++ [Nat.digitChar n])

/-- A local directory, then two spellings of one repository. -/
def sampleCalls : List Call :=
  [⟨.registerLocal sampleFs (sampleDraws 1) (some "/home/shop"), false⟩,
    ⟨.reserveManaged sampleFs (sampleDraws 2) "Acme/Shop/", false⟩]

def sampleStart : Registry := ⟨"reg_" ++ sampleDraws 0 0, "/data", .empty⟩

/-- What the second call returns. -/
def sampleSource : RegisteredSource :=
  ⟨"src_00000000000000000000000000000002", "acme/shop", "shop",
    "/data/sources/src_00000000000000000000000000000002/checkout",
    some (githubRepo "acme".toList "shop".toList), false⟩

def sampleReserve : Event Registry Call (Except RegistryError (Option RegisteredSource)) :=
  let s := (Registry.machine sampleUrl).exec sampleStart (sampleCalls.take 1)
  let call := ⟨.reserveManaged sampleFs (sampleDraws 2) "Acme/Shop/", false⟩
  ⟨s, call, ((Registry.machine sampleUrl).step s call).2,
    ((Registry.machine sampleUrl).step s call).1⟩

/-- Another spelling returns the source that was reserved. -/
theorem source_registry_sample : ∃ source',
    reserveManaged sampleUrl sampleFs (sampleDraws 3) "git@GitHub.com:ACME/SHOP.GIT"
        ((Registry.machine sampleUrl).exec sampleStart sampleCalls)
      = .ok (source', (Registry.machine sampleUrl).exec sampleStart sampleCalls)
    ∧ SameSource sampleSource source' := by
  have hinit : (Registry.machine sampleUrl).init sampleStart := by
    refine ⟨sampleFs, sampleDraws 0 0, some "/data", ?_⟩
    have hdir : canonicalDirectory sampleFs (some "/data") = .ok "/data" := by decide
    have hid : validId ("reg_" ++ sampleDraws 0 0) "reg_" = true := by decide
    have hstate : checkState sampleStart none = .ok ("reg_" ++ sampleDraws 0 0) := by decide
    simp only [create, bind_eq_ok, ensure_eq_ok, pure_eq_ok]
    exact ⟨_, hdir, (), hid, _, hstate, rfl⟩
  have hsteps : (Registry.machine sampleUrl).Steps sampleStart
      ((Registry.machine sampleUrl).trace sampleStart sampleCalls)
      ((Registry.machine sampleUrl).exec sampleStart sampleCalls) :=
    steps_exec fun _ _ _ => trivial
  obtain ⟨-, -, -, -, hagain, -⟩ := source_registry sampleUrl_spec hinit hsteps
  have htrace : (Registry.machine sampleUrl).trace sampleStart sampleCalls
      = List.take 1 ((Registry.machine sampleUrl).trace sampleStart sampleCalls)
        ++ sampleReserve :: [] := rfl
  have hout : sampleReserve.out = .ok (some sampleSource) := by decide +kernel
  exact hagain _ _ _ sampleFs (sampleDraws 2) "Acme/Shop/" false sampleSource htrace rfl hout sampleFs
    (sampleDraws 3) "git@GitHub.com:ACME/SHOP.GIT" (githubRepo "acme".toList "shop".toList)
    (githubRepo "acme".toList "shop".toList) (by decide +kernel) (by decide +kernel) rfl
    (by decide +kernel)

end Sources
