/-
One origin for every spelling.

A repository on GitHub is written in shorthand, as an `https` URL or for SSH, with or
without `.git`, in any letter case and with any number of slashes after it.

* `repoOfPath_spelling` — the path of each names the owner and the repository in lower case;
* `parse_spelling` — so all of them are parsed as one origin;
* `parse_cloneUrl` — the clone URL of a valid origin is parsed as that origin.

`UrlSpec` is what is relied on of the crate `url`.
-/
import Cartograph.Lib.Json
import Cartograph.Sources.Origin

namespace Sources

open Checked

/-! ### Characters -/

/-- The characters of owners and names. -/
def repoChar (c : Char) : Bool := asciiAlphanumeric c || c == '.' || c == '_' || c == '-'

/-- No blank, no control and no backslash. -/
def plainChar (c : Char) : Bool := !isControl c && !isWhitespace c && c != '\\'

theorem checked_repoChar : ∀ n < 128, repoChar (Char.ofNat n) = true →
    repoChar (Char.ofNat n).toLower = true ∧ Char.ofNat n ≠ '/' ∧ (Char.ofNat n).toLower ≠ '/'
      ∧ Char.ofNat n ≠ ':' ∧ isControl (Char.ofNat n) = false
      ∧ isWhitespace (Char.ofNat n) = false ∧ Char.ofNat n ≠ '\\' := by
  decide

theorem checked_toLower :
    (∀ n < 128, (Char.ofNat n).toLower.toLower = (Char.ofNat n).toLower)
    ∧ (∀ n < 128, (asciiAlphanumeric (Char.ofNat n) || Char.ofNat n == '-') = true →
      (asciiAlphanumeric (Char.ofNat n).toLower || (Char.ofNat n).toLower == '-') = true)
    ∧ (∀ n < 128, (Char.ofNat n).toLower = '.' → Char.ofNat n = '.')
    ∧ (∀ n < 128, (Char.ofNat n).toLower = ':' → Char.ofNat n = ':')
    ∧ (∀ n < 128, plainChar (Char.ofNat n).toLower = true → plainChar (Char.ofNat n) = true)
    ∧ ∀ n < 128, (Char.ofNat n).toLower ∈ ".git".toList → repoChar (Char.ofNat n) = true := by
  decide

theorem checked_texts :
    ".git".toList.all repoChar = true ∧ lower ".git".toList = ".git".toList
    ∧ (".git".toList.all fun c => decide (c.toNat < 128)) = true ∧ ".git".toList.length ≤ 100
    ∧ lower "https://github.com/".toList = "https://github.com/".toList
    ∧ ':' ∈ "https://github.com/".toList
    ∧ "https://github.com/".toList.all plainChar = true
    ∧ ("https://github.com/".toList.all fun c => decide (c.toNat < 128)) = true
    ∧ "https://github.com/".toList.length ≤ 100
    ∧ ':' ∉ "git@github.com".toList ∧ "git@github.com:".toList.all plainChar = true
    ∧ ("github:".toList.all fun c => decide (c.toNat < 128)) = true ∧ "github:".toList.length ≤ 100
    ∧ ':' ∈ "file:".toList := by
  decide

variable {c : Char} {text : List Char}

theorem forall_ascii {p : Char → Prop} (h : ∀ n < 128, p (Char.ofNat n)) (hc : c.toNat < 128) :
    p c := by
  have hp := h c.toNat hc
  rwa [Char.ofNat_toNat] at hp

theorem repoChar_ascii (h : repoChar c = true) : c.toNat < 128 := by
  simp only [repoChar, asciiAlphanumeric, Bool.or_eq_true, Bool.and_eq_true, decide_eq_true_eq,
    beq_iff_eq] at h
  rcases h with ((h | rfl) | rfl) | rfl
  · omega
  · decide
  · decide
  · decide

theorem repoChar_spec (h : repoChar c = true) :
    repoChar c.toLower = true ∧ c ≠ '/' ∧ c.toLower ≠ '/' ∧ c ≠ ':' ∧ isControl c = false
      ∧ isWhitespace c = false ∧ c ≠ '\\' := by
  exact forall_ascii (p := fun c => repoChar c = true → repoChar c.toLower = true ∧ c ≠ '/'
    ∧ c.toLower ≠ '/' ∧ c ≠ ':' ∧ isControl c = false ∧ isWhitespace c = false ∧ c ≠ '\\')
    checked_repoChar (repoChar_ascii h) h

theorem toLower_eq_or_ascii (c : Char) : c.toLower = c ∨ c.toNat < 128 := by
  by_cases h : c.val ≥ 'A'.val ∧ c.val ≤ 'Z'.val
  · have hle : c.val.toNat ≤ 'Z'.val.toNat := UInt32.le_iff_toNat_le.mp h.2
    exact .inr (lt_of_le_of_lt hle (by decide))
  · exact .inl (by rw [Char.toLower, dif_neg h])

theorem toLower_toLower (c : Char) : c.toLower.toLower = c.toLower := by
  rcases toLower_eq_or_ascii c with hsame | hc
  · rw [hsame, hsame]
  · exact forall_ascii (p := fun c => c.toLower.toLower = c.toLower) checked_toLower.1 hc

theorem lower_lower (text : List Char) : lower (lower text) = lower text := by
  simp only [lower, List.map_map]
  exact List.map_congr_left fun c _ => toLower_toLower c

theorem lower_append (a b : List Char) : lower (a ++ b) = lower a ++ lower b := List.map_append

theorem all_repoChar_lower (h : text.all repoChar = true) :
    (lower text).all repoChar = true := by
  simp only [lower, List.all_map, List.all_eq_true] at h ⊢
  exact fun c hc => (repoChar_spec (h c hc)).1

theorem slash_not_mem (h : text.all repoChar = true) : '/' ∉ text :=
  fun hmem => (repoChar_spec (List.all_eq_true.mp h _ hmem)).2.1 rfl

theorem utf8ByteSize_ascii (h : ∀ c ∈ text, c.toNat < 128) :
    (String.ofList text).utf8ByteSize = text.length := by
  rw [← Json.length_utf8, Json.utf8_eq, String.toList_ofList]
  induction text with
  | nil => rfl
  | cons c rest ih =>
    have hc : c.utf8Size = 1 := Json.utf8Size_of_toNat_le (by have := h c (by simp); omega)
    rw [List.flatMap_cons, List.length_append, ih fun c hc => h c (List.mem_cons_of_mem _ hc),
      String.length_utf8EncodeChar, hc, List.length_cons, Nat.add_comm]

/-! ### Parts of a spelling -/

theorem ownerValid_chars {owner : List Char} (h : ownerValid owner = true) :
    owner ≠ [] ∧ owner.length ≤ 100 ∧ owner.all repoChar = true := by
  simp only [ownerValid, Bool.and_eq_true, bne_iff_ne, decide_eq_true_eq] at h
  refine ⟨h.1.1, h.1.2, List.all_eq_true.mpr fun c hc => ?_⟩
  have hchar := List.all_eq_true.mp h.2 c hc
  simp only [Bool.or_eq_true] at hchar
  simp only [repoChar, Bool.or_eq_true]
  tauto

theorem nameValid_iff {name : List Char} : nameValid name = true ↔ name ≠ [] ∧ name.length ≤ 100
    ∧ name ≠ ['.'] ∧ name ≠ ['.', '.'] ∧ name.all repoChar = true := by
  simp only [nameValid, Bool.and_eq_true, bne_iff_ne, decide_eq_true_eq, and_assoc]
  rfl

theorem ownerValid_lower {owner : List Char} (h : ownerValid owner = true) :
    ownerValid (lower owner) = true := by
  obtain ⟨hne, hlen, hchars⟩ := ownerValid_chars h
  simp only [ownerValid, Bool.and_eq_true, bne_iff_ne, decide_eq_true_eq] at h ⊢
  refine ⟨⟨by simpa [lower] using hne, by simpa [lower] using hlen⟩, ?_⟩
  simp only [lower, List.all_map, List.all_eq_true]
  intro c hc
  exact forall_ascii (p := fun c => (asciiAlphanumeric c || c == '-') = true →
    (asciiAlphanumeric c.toLower || c.toLower == '-') = true) checked_toLower.2.1
    (repoChar_ascii (List.all_eq_true.mp hchars c hc)) (List.all_eq_true.mp h.2 c hc)

theorem toLower_eq_dot (h : c.toLower = '.') (hc : repoChar c = true) : c = '.' := by
  exact forall_ascii (p := fun c => c.toLower = '.' → c = '.') checked_toLower.2.2.1
    (repoChar_ascii hc) h

theorem nameValid_lower {name : List Char} (h : nameValid name = true) :
    nameValid (lower name) = true := by
  obtain ⟨hne, hlen, hdot, hdots, hchars⟩ := nameValid_iff.mp h
  have hchar := List.all_eq_true.mp hchars
  refine nameValid_iff.mpr ⟨by simpa [lower] using hne, by simpa [lower] using hlen, ?_, ?_,
    all_repoChar_lower hchars⟩
  · intro heq
    obtain ⟨c, rfl, hc⟩ := List.map_eq_singleton_iff.mp heq
    exact hdot (by rw [toLower_eq_dot hc (hchar c (by simp))])
  · intro heq
    obtain ⟨c, rest, rfl, hc, hrest⟩ := List.map_eq_cons_iff.mp heq
    obtain ⟨c', rfl, hc'⟩ := List.map_eq_singleton_iff.mp hrest
    exact hdots (by
      rw [toLower_eq_dot hc (hchar c (by simp)), toLower_eq_dot hc' (hchar c' (by simp))])

/-- `.git` in some letter case, or nothing. -/
def GitSuffix (git : List Char) : Prop := git = [] ∨ lower git = ".git".toList

theorem GitSuffix.chars {git : List Char} (h : GitSuffix git) : git.all repoChar = true := by
  rcases h with rfl | h
  · rfl
  · -- No other character has a letter of `.git` as its lower case.
    have hchar : ∀ c, c.toLower ∈ ".git".toList → repoChar c = true := by
      intro c hc
      rcases toLower_eq_or_ascii c with hsame | hlow
      · exact List.all_eq_true.mp checked_texts.1 c (hsame ▸ hc)
      · exact forall_ascii (p := fun c => c.toLower ∈ ".git".toList → repoChar c = true)
          checked_toLower.2.2.2.2.2 hlow hc
    refine List.all_eq_true.mpr fun c hc => hchar c ?_
    rw [← h]
    exact List.mem_map_of_mem hc

theorem withoutGit_append {name git : List Char} (hgit : lower git = ".git".toList) :
    withoutGit (lower (name ++ git)) = lower name := by
  have hdrop : (lower (name ++ git)).dropSuffix? ".git".toList = some (lower name) := by
    refine List.dropSuffix?_eq_some_iff.mpr ⟨".git".toList, ?_, BEq.rfl⟩
    rw [lower_append, hgit]
  rw [withoutGit, hdrop]
  rfl

theorem rdropWhile_slashes (h : ∀ hne : text ≠ [], text.getLast hne ≠ '/') (slashes : ℕ) :
    (text ++ List.replicate slashes '/').rdropWhile (· == '/') = text := by
  induction slashes with
  | zero =>
    rw [List.replicate_zero, List.append_nil, List.rdropWhile_eq_self_iff]
    intro hne
    simpa using h hne
  | succ n ih => rw [List.replicate_succ', ← List.append_assoc, List.rdropWhile_concat_pos _ _ _ rfl, ih]

/-- The path of a spelling. -/
def repoPath (owner name git : List Char) (slashes : ℕ) : List Char :=
  owner ++ '/' :: (name ++ git ++ List.replicate slashes '/')

theorem repoOfPath_spelling {owner name git : List Char} (howner : ownerValid owner = true)
    (hname : nameValid name = true) (hplain : withoutGit (lower name) = lower name)
    (hgit : GitSuffix git) (slashes : ℕ) :
    repoOfPath ('/' :: repoPath owner name git slashes) = some (lower owner, lower name) := by
  obtain ⟨-, -, hochars⟩ := ownerValid_chars howner
  obtain ⟨hne, -, -, -, hnchars⟩ := nameValid_iff.mp hname
  have hngchars : (name ++ git).all repoChar = true := by
    rw [List.all_append, hnchars, hgit.chars]
    rfl
  have htrim : ('/' :: repoPath owner name git slashes).rdropWhile (· == '/')
      = '/' :: (owner ++ '/' :: (name ++ git)) := by
    have hshape : '/' :: repoPath owner name git slashes
        = ('/' :: (owner ++ '/' :: (name ++ git))) ++ List.replicate slashes '/' := by
      simp [repoPath]
    rw [hshape]
    refine rdropWhile_slashes (fun hnil => ?_) slashes
    have hng : name ++ git ≠ [] := by simp [hne]
    have hlast : ('/' :: (owner ++ '/' :: (name ++ git))).getLast hnil = (name ++ git).getLast hng := by
      simp [List.getLast_cons, List.getLast_append_of_ne_nil, hng]
    rw [hlast]
    exact (repoChar_spec (List.all_eq_true.mp hngchars _ (List.getLast_mem hng))).2.1
  have hwithout : withoutGit (lower (name ++ git)) = lower name := by
    rcases hgit with rfl | hgit
    · rw [List.append_nil, hplain]
    · exact withoutGit_append hgit
  have hsplit : (lower owner ++ '/' :: lower (name ++ git)).splitOn '/'
      = [lower owner, lower (name ++ git)] := by
    rw [List.splitOn_append_cons_self_of_not_mem (slash_not_mem (all_repoChar_lower hochars)),
      List.splitOn_eq_singleton (slash_not_mem (all_repoChar_lower hngchars))]
  have hlow : lower ('/' :: (owner ++ '/' :: (name ++ git)))
      = '/' :: (lower owner ++ '/' :: lower (name ++ git)) := by
    simp [lower]
  have hdrop : ('/' :: (lower owner ++ '/' :: lower (name ++ git))).dropPrefix? ['/']
      = some (lower owner ++ '/' :: lower (name ++ git)) := by
    simp [List.dropPrefix?]
  simp only [repoOfPath, htrim, hlow, hdrop, Option.getD_some, hsplit, hwithout,
    ownerValid_lower howner, nameValid_lower hname, Bool.and_self, if_true]

/-! ### Whole spellings -/

/-- Before the path: nothing, the address of GitHub, or its host for SSH, in any case. -/
def Lead (lead : List Char) : Prop :=
  lead = [] ∨ lower lead = "https://github.com/".toList ∨ lower lead = "git@github.com:".toList

/-- What is relied on of the crate `url`: an address on GitHub with a plain path is parsed
as it stands, and the URL of a file path is a `file:` URL without blanks and controls. -/
structure UrlSpec (url : UrlCrate) : Prop where
  github : ∀ lead path : List Char, lower lead = "https://github.com/".toList →
    (path.all fun c => repoChar c || c == '/') = true →
    ['.'] ∉ path.splitOn '/' → ['.', '.'] ∉ path.splitOn '/' →
    url.parse (String.ofList (lead ++ path)) = some ⟨"https", "", none, some "github.com", none,
      String.ofList ('/' :: path), none, none⟩
  file : ∀ path text, url.fromFilePath path = some text →
    "file:".toList.isPrefixOf text.toList = true
      ∧ ∀ c ∈ text.toList, isControl c = false ∧ isWhitespace c = false

section Spelling

variable {owner name git : List Char} (howner : ownerValid owner = true)
  (hname : nameValid name = true) (hgit : GitSuffix git) (slashes : ℕ)

include howner hname hgit

theorem repoPath_chars : ∀ c ∈ repoPath owner name git slashes, repoChar c = true ∨ c = '/' := by
  obtain ⟨-, -, hochars⟩ := ownerValid_chars howner
  obtain ⟨-, -, -, -, hnchars⟩ := nameValid_iff.mp hname
  intro c hc
  simp only [repoPath, List.mem_append, List.mem_cons] at hc
  rcases hc with hc | rfl | (hc | hc) | hc
  · exact .inl (List.all_eq_true.mp hochars c hc)
  · exact .inr rfl
  · exact .inl (List.all_eq_true.mp hnchars c hc)
  · exact .inl (List.all_eq_true.mp hgit.chars c hc)
  · exact .inr (List.eq_of_mem_replicate hc)

theorem repoPath_parts : ['.'] ∉ (repoPath owner name git slashes).splitOn '/'
    ∧ ['.', '.'] ∉ (repoPath owner name git slashes).splitOn '/' := by
  obtain ⟨-, -, hochars⟩ := ownerValid_chars howner
  obtain ⟨hne, -, hdot, hdots, hnchars⟩ := nameValid_iff.mp hname
  have hngchars : (name ++ git).all repoChar = true := by
    rw [List.all_append, hnchars, hgit.chars]
    rfl
  have hparts : ∀ part ∈ (repoPath owner name git slashes).splitOn '/',
      part = owner ∨ part = name ++ git ∨ part = [] := by
    rw [repoPath, List.splitOn_append_cons_self_of_not_mem (slash_not_mem hochars)]
    intro part hpart
    rcases List.mem_cons.mp hpart with rfl | hpart
    · exact .inl rfl
    · right
      cases slashes with
      | zero =>
        rw [List.replicate_zero, List.append_nil,
          List.splitOn_eq_singleton (slash_not_mem hngchars)] at hpart
        exact .inl (List.mem_singleton.mp hpart)
      | succ n =>
        rw [List.replicate_succ, List.splitOn_append_cons_self_of_not_mem (slash_not_mem hngchars)]
          at hpart
        rcases List.mem_cons.mp hpart with rfl | hpart
        · exact .inl rfl
        · -- The rest is slashes only, and so are its parts empty.
          right
          have hempty : ∀ n, ∀ part ∈ (List.replicate n '/').splitOn '/', part = [] := by
            intro n
            induction n with
            | zero => simp
            | succ n ih =>
              rw [List.replicate_succ, ← List.nil_append ('/' :: _),
                List.splitOn_append_cons_self_of_not_mem (by simp)]
              intro part hpart
              rcases List.mem_cons.mp hpart with rfl | hpart
              · rfl
              · exact ih part hpart
          exact hempty n part hpart
  have howner_dot : '.' ∉ owner := by
    intro hmem
    simp only [ownerValid, Bool.and_eq_true] at howner
    exact absurd (List.all_eq_true.mp howner.2 '.' hmem) (by decide)
  -- a suffix is long enough for the name to be no dot or two
  have hgit_two : git = [] ∨ 4 ≤ git.length := by
    rcases hgit with rfl | hgit
    · exact .inl rfl
    · have hlen := congrArg List.length hgit
      rw [lower, List.length_map] at hlen
      exact .inr (hlen ▸ le_rfl)
  have hnamed : name ++ git ≠ ['.'] ∧ name ++ git ≠ ['.', '.'] := by
    rcases hgit_two with rfl | hlen
    · rw [List.append_nil]
      exact ⟨hdot, hdots⟩
    · have hlong : 4 ≤ (name ++ git).length := by
        rw [List.length_append]
        omega
      exact ⟨fun h => by rw [h] at hlong; simp at hlong, fun h => by rw [h] at hlong; simp at hlong⟩
  refine ⟨fun hmem => ?_, fun hmem => ?_⟩
  · rcases hparts _ hmem with h | h | h
    · exact howner_dot (h ▸ by simp)
    · exact hnamed.1 h.symm
    · cases h
  · rcases hparts _ hmem with h | h | h
    · exact howner_dot (h ▸ by simp)
    · exact hnamed.2 h.symm
    · cases h

end Spelling

theorem plainChar_of_toLower (h : plainChar c.toLower = true) : plainChar c = true := by
  rcases toLower_eq_or_ascii c with hsame | hc
  · rwa [hsame] at h
  · exact forall_ascii (p := fun c => plainChar c.toLower = true → plainChar c = true)
      checked_toLower.2.2.2.2.1 hc h

theorem plainChar_of_lower (h : (lower text).all plainChar = true) :
    text.all plainChar = true := by
  refine List.all_eq_true.mpr fun c hc => plainChar_of_toLower ?_
  exact List.all_eq_true.mp h _ (List.mem_map_of_mem hc)

theorem eq_colon_of_toLower (h : c.toLower = ':') : c = ':' := by
  rcases toLower_eq_or_ascii c with hsame | hc
  · rwa [hsame] at h
  · exact forall_ascii (p := fun c => c.toLower = ':' → c = ':') checked_toLower.2.2.2.1 hc h

theorem colon_mem_of_lower (h : ':' ∈ lower text) : ':' ∈ text := by
  obtain ⟨c, hc, hcolon⟩ := List.mem_map.mp h
  exact eq_colon_of_toLower hcolon ▸ hc

variable {a b : List Char} {fs : FileSystem} {o : ManagedOrigin}

theorem splitOnce_append (h : c ∉ a) :
    splitOnce c (a ++ c :: b) = some (a, b) := by
  have hall : ∀ x ∈ a, decide (x ≠ c) = true := by
    intro x hx
    simpa using fun heq : x = c => h (heq ▸ hx)
  have htake : (a ++ c :: b).takeWhile (· ≠ c) = a := by
    rw [List.takeWhile_append_of_pos hall]
    simp
  have hdrop : (a ++ c :: b).dropWhile (· ≠ c) = c :: b := by
    rw [List.dropWhile_append_of_pos hall]
    simp
  rw [splitOnce, if_pos (by simp), htake, hdrop]
  rfl

theorem candidate_lead {lead path : List Char} (hlead : Lead lead) (hpath : ':' ∉ path) :
    ∃ lead', lower lead' = "https://github.com/".toList
      ∧ candidate (lead ++ path) = lead' ++ path := by
  obtain ⟨-, -, -, -, hlower, hcolon, -, -, -, hnone, -⟩ := checked_texts
  rcases hlead with rfl | hlead | hlead
  · refine ⟨"https://github.com/".toList, hlower, ?_⟩
    rw [List.nil_append, candidate, splitOnce, if_neg hpath]
  · refine ⟨lead, hlead, ?_⟩
    rw [candidate]
    cases hsplit : splitOnce ':' (lead ++ path) with
    | none =>
      -- The address has a colon.
      have hmem : ':' ∈ lower lead := hlead ▸ hcolon
      rw [splitOnce, if_pos (List.mem_append_left _ (colon_mem_of_lower hmem))] at hsplit
      cases hsplit
    | some p =>
      obtain ⟨host, rest⟩ := p
      -- the part before the first colon starts with the scheme
      have hhost : lower host ≠ "git@github.com".toList := by
        intro heq
        obtain ⟨c, lead', rfl, hc, -⟩ := List.map_eq_cons_iff.mp hlead
        have hne : c ≠ ':' := by
          rintro rfl
          exact absurd hc (by decide)
        rw [splitOnce, if_pos (by
          have hmem : ':' ∈ lower (c :: lead') := hlead ▸ hcolon
          exact List.mem_append_left _ (colon_mem_of_lower hmem))] at hsplit
        obtain ⟨rfl, -⟩ := Prod.mk.inj (Option.some.inj hsplit)
        rw [List.cons_append, List.takeWhile_cons_of_pos (by simpa using hne), lower, List.map_cons,
          hc] at heq
        exact absurd (List.cons.inj heq).1 (by decide)
      show (if lower host = _ then _ else lead ++ path) = lead ++ path
      rw [if_neg hhost]
  · refine ⟨"https://github.com/".toList, hlower, ?_⟩
    obtain ⟨host, colon, rfl, hhost, hend⟩ := List.map_eq_append_iff.mp
      (show lead.map Char.toLower = "git@github.com".toList ++ [':'] from hlead)
    obtain ⟨c, rfl, hc⟩ := List.map_eq_singleton_iff.mp hend
    obtain rfl := eq_colon_of_toLower hc
    have hmem : ':' ∉ host := by
      intro hmem
      have hlow : ':' ∈ host.map Char.toLower := List.mem_map.mpr ⟨':', hmem, by decide⟩
      rw [hhost] at hlow
      exact hnone hlow
    -- the first colon ends the host
    have hsplit : splitOnce ':' (host ++ [':'] ++ path) = some (host, path) := by
      rw [List.append_assoc]
      exact splitOnce_append hmem
    rw [candidate, hsplit]
    show (if lower host = _ then _ else _) = _
    rw [if_pos (show lower host = "git@github.com".toList from hhost)]

theorem Lead.plain {lead : List Char} (h : Lead lead) : lead.all plainChar = true := by
  obtain ⟨-, -, -, -, -, -, hhttps, -, -, -, hssh, -⟩ := checked_texts
  refine plainChar_of_lower ?_
  rcases h with rfl | h | h
  · rfl
  · rwa [h]
  · rwa [h]

theorem plainChar_repoChar (h : repoChar c = true ∨ c = '/') : plainChar c = true := by
  rcases h with h | rfl
  · obtain ⟨-, -, -, -, hcontrol, hspace, hslash⟩ := repoChar_spec h
    simp [plainChar, hcontrol, hspace, hslash]
  · decide

section Spelling

variable {url : UrlCrate} (hurl : UrlSpec url) {lead owner name git : List Char} (hlead : Lead lead)
  (howner : ownerValid owner = true) (hname : nameValid name = true)
  (hplain : withoutGit (lower name) = lower name) (hgit : GitSuffix git) (slashes : ℕ)

include hlead howner hname hgit

theorem spelling_plain : (lead ++ repoPath owner name git slashes).all plainChar = true := by
  rw [List.all_append, hlead.plain, Bool.true_and]
  exact List.all_eq_true.mpr fun c hc =>
    plainChar_repoChar (repoPath_chars howner hname hgit slashes c hc)

include hurl hplain

theorem githubOrigin_spelling :
    githubOrigin url (String.ofList (lead ++ repoPath owner name git slashes))
      = .ok (githubRepo (lower owner) (lower name)) := by
  have hchars := repoPath_chars howner hname hgit slashes
  obtain ⟨hdot, hdots⟩ := repoPath_parts howner hname hgit slashes
  have hcolon : ':' ∉ repoPath owner name git slashes := by
    intro hmem
    rcases hchars ':' hmem with h | h
    · exact (repoChar_spec h).2.2.2.1 rfl
    · cases h
  have hall : ((repoPath owner name git slashes).all fun c => repoChar c || c == '/') = true := by
    refine List.all_eq_true.mpr fun c hc => ?_
    rcases hchars c hc with h | h
    · simp [h]
    · simp [h]
  obtain ⟨lead', hlead', hcandidate⟩ := candidate_lead hlead hcolon
  have hparse := hurl.github lead' _ hlead' hall hdot hdots
  have hplainInput : ((lead ++ repoPath owner name git slashes).any fun c =>
      isControl c || isWhitespace c || c == '\\') = false := by
    rw [List.any_eq_false]
    intro c hc
    have hc' := List.all_eq_true.mp (spelling_plain hlead howner hname hgit slashes) c hc
    simp only [plainChar, Bool.and_eq_true, Bool.not_eq_true', bne_iff_ne] at hc'
    simp [hc'.1.1, hc'.1.2, hc'.2]
  have hrepo := repoOfPath_spelling howner hname hplain hgit slashes
  rw [githubOrigin, String.toList_ofList, hcandidate, hparse]
  refine bind_eq_ok.mpr ⟨_, rfl, bind_eq_ok.mpr ⟨(), ensure_eq_ok.mpr ?_, ?_⟩⟩
  · exact ⟨rfl, rfl, rfl, rfl, rfl, rfl, rfl, hplainInput⟩
  · rw [String.toList_ofList, hrepo]
    rfl

end Spelling

/-! ### Parsing -/

theorem trim_plain (h : ∀ c ∈ text, isWhitespace c = false) :
    trim text = text := by
  have hfront : text.dropWhile isWhitespace = text := by
    cases text with
    | nil => rfl
    | cons c rest => rw [List.dropWhile_cons_of_neg (by simp [h c (by simp)])]
  rw [trim, hfront, List.rdropWhile_eq_self_iff]
  intro hne
  simp [h _ (List.getLast_mem hne)]

variable {url : UrlCrate}

theorem parse_plain {text : String}
    (h : ∀ c ∈ text.toList, isControl c = false ∧ isWhitespace c = false) :
    parseManagedOrigin url fs text = .ok o
      ↔ (text ≠ "" ∧ text.utf8ByteSize ≤ MAX_ORIGIN_BYTES) ∧ originOf url fs text = .ok o
        ∧ o.validate url = .ok () := by
  have htrim : String.ofList (trim text.toList) = text := by
    rw [trim_plain fun c hc => (h c hc).2, String.ofList_toList]
  have hcontrol : text.toList.any isControl = false := by
    rw [List.any_eq_false]
    intro c hc
    simp [(h c hc).1]
  simp only [parseManagedOrigin, htrim, bind_eq_ok, ensure_eq_ok, pure_eq_ok, hcontrol, and_true]
  constructor
  · rintro ⟨_, hsize, o', horigin, _, hvalid, rfl⟩
    exact ⟨hsize, horigin, hvalid⟩
  · rintro ⟨hsize, horigin, hvalid⟩
    exact ⟨(), hsize, o, horigin, (), hvalid, rfl⟩

theorem ascii_append (ha : ∀ c ∈ a, c.toNat < 128) (hb : ∀ c ∈ b, c.toNat < 128) :
    ∀ c ∈ a ++ b, c.toNat < 128 := fun c hc => (List.mem_append.mp hc).elim (ha c) (hb c)

theorem githubRepo_sizes {owner name : List Char} (howner : ownerValid owner = true)
    (hname : nameValid name = true) :
    (githubRepo owner name).key.utf8ByteSize ≤ MAX_ORIGIN_BYTES
      ∧ (githubRepo owner name).cloneUrl.utf8ByteSize ≤ MAX_ORIGIN_BYTES
      ∧ (githubRepo owner name).displayName.utf8ByteSize ≤ MAX_ORIGIN_BYTES
      ∧ ∀ repo ∈ (githubRepo owner name).githubRepo, repo.utf8ByteSize ≤ 201 := by
  obtain ⟨-, holen, hochars⟩ := ownerValid_chars howner
  obtain ⟨-, hnlen, -, -, hnchars⟩ := nameValid_iff.mp hname
  have hn : ∀ c ∈ name, c.toNat < 128 := fun c hc => repoChar_ascii (List.all_eq_true.mp hnchars c hc)
  have hrepo : ∀ c ∈ owner ++ '/' :: name, c.toNat < 128 := by
    refine ascii_append (fun c hc => repoChar_ascii (List.all_eq_true.mp hochars c hc)) ?_
    exact List.forall_mem_cons.mpr ⟨by decide, hn⟩
  have hlen : (owner ++ '/' :: name).length ≤ 201 := by
    rw [List.length_append, List.length_cons]
    omega
  -- A fixed lead and a fixed end around the repository.
  have hwrap : ∀ lead tail : List Char, (lead.all fun c => decide (c.toNat < 128)) = true →
      (tail.all fun c => decide (c.toNat < 128)) = true →
      lead.length ≤ 100 → tail.length ≤ 100 →
      (String.ofList (lead ++ (owner ++ '/' :: name) ++ tail)).utf8ByteSize ≤ MAX_ORIGIN_BYTES := by
    intro lead tail hlead htail hleadlen htaillen
    simp only [List.all_eq_true, decide_eq_true_eq] at hlead htail
    rw [utf8ByteSize_ascii (ascii_append (ascii_append hlead hrepo) htail), List.length_append,
      List.length_append, MAX_ORIGIN_BYTES]
    omega
  obtain ⟨-, -, hgit, hgitlen, -, -, -, hhttps, hhttpslen, -, -, hkey, hkeylen, -⟩ := checked_texts
  refine ⟨?_, ?_, ?_, ?_⟩
  · have hwrapped := hwrap "github:".toList [] hkey (by simp) hkeylen (by simp)
    rwa [List.append_nil] at hwrapped
  · exact hwrap "https://github.com/".toList ".git".toList hhttps hgit hhttpslen hgitlen
  · show (String.ofList name).utf8ByteSize ≤ MAX_ORIGIN_BYTES
    rw [utf8ByteSize_ascii hn, MAX_ORIGIN_BYTES]
    omega
  · intro repo hmem
    obtain rfl := Option.some.inj hmem
    rw [utf8ByteSize_ascii hrepo]
    exact hlen

theorem cloneUrl_githubRepo (owner name : List Char) : (githubRepo owner name).cloneUrl
    = String.ofList ("https://github.com/".toList ++ repoPath owner name ".git".toList 0) := by
  have hassoc : ∀ lead git : List Char,
      lead ++ (owner ++ '/' :: name) ++ git = lead ++ repoPath owner name git 0 := by
    intro lead git
    simp [repoPath]
  exact congrArg String.ofList (hassoc _ _)

theorem toList_cloneUrl (owner name : List Char) : (githubRepo owner name).cloneUrl.toList
    = "https://github.com/".toList ++ repoPath owner name ".git".toList 0 := by
  rw [cloneUrl_githubRepo]
  exact String.toList_ofList

theorem not_file_github (path : List Char) :
    "file:".toList.isPrefixOf ("https://github.com/".toList ++ path) = false
      ∧ lower (("https://github.com/".toList ++ path).take 5) ≠ "file:".toList := by
  constructor
  · simp [List.isPrefixOf]
  · simp [lower]

theorem expectedOrigin_githubRepo (url : UrlCrate) (owner name : List Char) :
    expectedOrigin url (githubRepo owner name).cloneUrl
      = githubOrigin url (githubRepo owner name).cloneUrl := by
  have hfile : "file:".toList.isPrefixOf (githubRepo owner name).cloneUrl.toList = false := by
    rw [toList_cloneUrl]
    exact (not_file_github _).1
  rw [expectedOrigin, hfile]
  rfl

theorem validate_githubRepo (hurl : UrlSpec url) {owner name : List Char}
    (howner : ownerValid owner = true) (hname : nameValid name = true)
    (hplain : withoutGit (lower name) = lower name) :
    (githubRepo (lower owner) (lower name)).validate url = .ok () := by
  have hlead : Lead "https://github.com/".toList := .inr (.inl checked_texts.2.2.2.2.1)
  have hgit : GitSuffix ".git".toList := .inr checked_texts.2.1
  have horigin : githubOrigin url (githubRepo (lower owner) (lower name)).cloneUrl
      = .ok (githubRepo (lower owner) (lower name)) := by
    have hspelling := githubOrigin_spelling hurl hlead (ownerValid_lower howner)
      (nameValid_lower hname) (by rw [lower_lower, hplain]) hgit 0
    rwa [lower_lower, lower_lower, ← cloneUrl_githubRepo] at hspelling
  simp only [ManagedOrigin.validate, bind_eq_ok, ensure_eq_ok, expectedOrigin_githubRepo]
  exact ⟨(), githubRepo_sizes (ownerValid_lower howner) (nameValid_lower hname), _, horigin, rfl⟩

/-- **One origin for every spelling.** -/
theorem parse_spelling (hurl : UrlSpec url) (fs : FileSystem) {lead owner name git : List Char}
    (hlead : Lead lead) (howner : ownerValid owner = true) (hname : nameValid name = true)
    (hplain : withoutGit (lower name) = lower name) (hgit : GitSuffix git) (slashes : ℕ)
    (o : ManagedOrigin) :
    parseManagedOrigin url fs (String.ofList (lead ++ repoPath owner name git slashes)) = .ok o
      ↔ (String.ofList (lead ++ repoPath owner name git slashes)).utf8ByteSize ≤ MAX_ORIGIN_BYTES
        ∧ o = githubRepo (lower owner) (lower name) := by
  have hchars := List.all_eq_true.mp (spelling_plain hlead howner hname hgit slashes)
  have hclean : ∀ c ∈ lead ++ repoPath owner name git slashes,
      isControl c = false ∧ isWhitespace c = false := by
    intro c hc
    have hc' := hchars c hc
    simp only [plainChar, Bool.and_eq_true, Bool.not_eq_true'] at hc'
    exact hc'.1
  have hnil : String.ofList (lead ++ repoPath owner name git slashes) ≠ "" := by
    simp [repoPath]
  have hfile : lower ((lead ++ repoPath owner name git slashes).take 5) ≠ "file:".toList := by
    intro hfile
    have htake : lower ((lead ++ repoPath owner name git slashes).take 5)
        = (lower lead ++ lower (repoPath owner name git slashes)).take 5 := by
      rw [← lower_append, lower, lower, List.map_take]
    rcases hlead with rfl | hlead | hlead
    · -- The shorthand has no colon.
      have hmem : ':' ∈ lower ((repoPath owner name git slashes).take 5) := by
        rw [List.nil_append] at hfile
        rw [hfile]
        exact checked_texts.2.2.2.2.2.2.2.2.2.2.2.2.2
      rcases repoPath_chars howner hname hgit slashes ':'
        (List.mem_of_mem_take (colon_mem_of_lower hmem)) with h | h
      · exact (repoChar_spec h).2.2.2.1 rfl
      · cases h
    · rw [htake, hlead] at hfile
      simp at hfile
    · rw [htake, hlead] at hfile
      simp at hfile
  -- no spelling is taken for a mirror, so it is read as a repository
  have horigin : originOf url fs (String.ofList (lead ++ repoPath owner name git slashes))
      = .ok (githubRepo (lower owner) (lower name)) := by
    rw [originOf, String.toList_ofList, if_neg hfile]
    exact githubOrigin_spelling hurl hlead howner hname hplain hgit slashes
  rw [parse_plain (by rwa [String.toList_ofList]), horigin]
  constructor
  · rintro ⟨⟨-, hsize⟩, hok, -⟩
    exact ⟨hsize, (Except.ok.inj hok).symm⟩
  · rintro ⟨hsize, rfl⟩
    exact ⟨⟨hnil, hsize⟩, rfl, validate_githubRepo hurl howner hname hplain⟩

/-! ### Clone URLs -/

/-- The path a clone URL of a mirror names. -/
def mirrorPath (url : UrlCrate) (cloneUrl : String) : Option String :=
  (url.parse cloneUrl).bind fun parsed => (url.toFilePath parsed).bind id

/-- **The clone URL of a valid origin is parsed as that origin**; a mirror has to be there
still, under its canonical path. -/
theorem parse_cloneUrl (hurl : UrlSpec url) (h : o.validate url = .ok ())
    (hmirror : ∀ path, o.githubRepo = none → mirrorPath url o.cloneUrl = some path →
      fs.canonicalize (some path) = some (some path) ∧ fs.isDir path = true) :
    parseManagedOrigin url fs o.cloneUrl = .ok o := by
  have hvalid := h
  simp only [ManagedOrigin.validate, bind_eq_ok, ensure_eq_ok] at h
  obtain ⟨_, ⟨-, hsize, -, -⟩, o', horigin, rfl⟩ := h
  rw [expectedOrigin] at horigin
  split_ifs at horigin with hfile
  · -- A mirror.
    simp only [mirrorOrigin, bind_eq_ok, orFail_eq_ok] at horigin
    obtain ⟨parsed, hparsed, path?, hpath?, path, hpath, horigin⟩ := horigin
    obtain ⟨rfl, -⟩ := Option.filter_eq_some_iff.mp hpath
    have hfields := horigin
    simp only [fileOrigin, bind_eq_ok, orFail_eq_ok, pure_eq_ok] at hfields
    obtain ⟨text, hfrom, _, -, _, -, hfields⟩ := hfields
    have hclone : o'.cloneUrl = text := by rw [← hfields]
    have hrepo : o'.githubRepo = none := by rw [← hfields]
    obtain ⟨-, hclean⟩ := hurl.file path text hfrom
    rw [← hclone] at hclean
    have hparse : url.parse o'.cloneUrl = some parsed := by
      simp only [localFileUrl, bind_eq_ok, orFail_eq_ok, pure_eq_ok] at hparsed
      obtain ⟨_, hparse, _, -, rfl⟩ := hparsed
      exact hparse
    -- the mirror is still there, so its path stays canonical
    obtain ⟨hcanonical, hdir⟩ := hmirror path hrepo (by simp [mirrorPath, hparse, hpath?])
    obtain ⟨rest, hrest⟩ := List.isPrefixOf_iff_prefix.mp hfile
    have htake : lower (o'.cloneUrl.toList.take 5) = "file:".toList := by
      rw [← hrest]
      simp [lower]
    have hnil : o'.cloneUrl ≠ "" := by
      intro hnil
      rw [hnil] at hrest
      simp at hrest
    rw [parse_plain hclean, originOf, if_pos htake]
    refine ⟨⟨hnil, hsize⟩, ?_, hvalid⟩
    simp only [canonicalMirror, bind_eq_ok, orFail_eq_ok]
    exact ⟨parsed, hparsed, some path, hpath?, some path, hcanonical, path, by simp [hdir], horigin⟩
  · -- A repository on GitHub: its URL is parsed by the same function.
    have hparts := horigin
    simp only [githubOrigin, bind_eq_ok, orFail_eq_ok, ensure_eq_ok, pure_eq_ok] at hparts
    obtain ⟨_, -, _, ⟨-, -, -, -, -, -, -, hplain⟩, ⟨owner, name⟩, -, hrepo⟩ := hparts
    have hclone : o'.cloneUrl.toList
        = "https://github.com/".toList ++ repoPath owner name ".git".toList 0 := by
      rw [← hrepo, toList_cloneUrl]
    -- the URL was checked to be plain
    have hclean : ∀ c ∈ o'.cloneUrl.toList, isControl c = false ∧ isWhitespace c = false := by
      intro c hc
      have hc' := List.any_eq_false.mp hplain c hc
      simp only [Bool.or_eq_true, not_or, Bool.not_eq_true] at hc'
      exact ⟨hc'.1.1, hc'.1.2⟩
    have hnil : o'.cloneUrl ≠ "" := by
      intro hnil
      rw [hnil] at hclone
      simp at hclone
    have htake : lower (o'.cloneUrl.toList.take 5) ≠ "file:".toList := by
      rw [hclone]
      exact (not_file_github _).2
    rw [parse_plain hclean, originOf, if_neg htake]
    exact ⟨⟨hnil, hsize⟩, horigin, hvalid⟩

end Sources
