/-
The `eval` sites of an extraction in a preflight report
(`reconciled_preflight_report`, `src-tauri/src/main.rs`).

After an extraction the scan runs once more, with the sites the TypeScript extractor classified
as claims.  A site is known by the line its call begins at.  The scan looks at a line only when
its text has `eval(` or `new Function(`, in a script that its own walk or the capture leads to,
and a claim at any other line is dropped.

* `reconciled_of_walk` — there is a report when the walk ends without an error;
* `reportedAt_iff` — the `inline-eval` findings, from the text and the claims;
* `classified_iff` — no site is lost when just the sites with a textual hit are open.
-/
import Cartograph.Preflight.Scan
import Cartograph.SourceCapture.Capture

namespace Preflight.Scan

open SourceWalk SourceCapture

/-! ### Sites -/

/-- `adapters_lang_ts::EvalProof`. -/
inductive SiteProof
  | covered
  | constUnproven
  | dynamic
  deriving DecidableEq

/-- `adapters_lang_ts::EvalSite`. -/
structure EvalSite where
  path : String
  line : ℕ
  proof : SiteProof
  deriving DecidableEq

def SiteProof.toClaim : SiteProof → EvalProof
  | .covered => .covered
  | .constUnproven => .constUnproven
  | .dynamic => .dynamic

def EvalSite.toClaim (site : EvalSite) : EvalSiteCoverage :=
  ⟨site.path, site.line, site.proof.toClaim⟩

def EvalSite.At (site : EvalSite) (path : String) (line : ℕ) : Prop :=
  site.path = path ∧ site.line = line

/-- What the scan reads its claims against: the capture, or the live tree. -/
def proofSource (capture : Option Capture) (claims : List EvalSiteCoverage) : EvalProofSource :=
  match capture with
  | some capture =>
    .captured (capture.manifest.files.map FileEntry.path) claims fun rel =>
      (capture.file rel).toOption.map CapturedFile.bytes
  | none => .claims claims

def neverBreaks : ScanStep → Bool := fun _ => false

section

variable {γ : Type} (tree : SourceTree γ) (capture : Option Capture)
  (plugins : List PluginCoverage) (evalSites : List EvalSite)

def reconciledPreflightReport : Except String Report :=
  match preflightScan tree (proofSource capture (evalSites.map EvalSite.toClaim)) plugins
      neverBreaks with
  | .error error => .error error
  | .ok none => .error "the reconciliation scan never stops early"
  | .ok (some report) => .ok report

/-! ### What a report says of a line -/

/-- There is an `inline-eval` finding at a line. -/
def ReportedAt (findings : List PatternFinding) (path : String) (line : ℕ) : Prop :=
  ∃ f ∈ findings, f.kind = "inline-eval" ∧ f.path = path ∧ f.line = line

/-- A line with a textual hit, of a script that the scan reads. -/
def TextualHit (path : String) (line : ℕ) : Prop :=
  ∃ files, filesUntil (walkOf tree neverBreaks) tree.listing = .ok (some files)
    ∧ Scans (proofSource capture []) files path
    ∧ ∃ text, sourceText tree (proofSource capture []) path = some text
      ∧ ∃ l ∈ numbered text, l.1 = line ∧ textualHit l.2 = true

/-- No site is lost: a dynamic site is an unsupported finding, a line whose worst site is
const-shaped but unproven is a potential gap, and a line with a textual hit has no finding when
it has sites and all of them are covered, and only then. -/
structure Classified (report : Report) : Prop where
  dynamic : ∀ site ∈ evalSites, site.proof = .dynamic →
    ReportedAt report.unsupported site.path site.line
  unproven : ∀ path line, (∃ site ∈ evalSites, site.At path line ∧ site.proof = .constUnproven) →
    (∀ site ∈ evalSites, site.At path line → site.proof ≠ .dynamic) →
    ReportedAt report.potentialGaps path line
  closed : ∀ path line, TextualHit tree capture path line →
    ((¬ReportedAt report.unsupported path line ∧ ¬ReportedAt report.potentialGaps path line)
      ↔ (∃ site ∈ evalSites, site.At path line)
        ∧ ∀ site ∈ evalSites, site.At path line → site.proof = .covered)

end

variable {path : String} {line : ℕ} {claims : List EvalProof}

section

variable {γ : Type} {tree : SourceTree γ} {capture : Option Capture}
  {plugins : List PluginCoverage} {evalSites : List EvalSite} {report : Report}

/-! ### The claims at a line -/

theorem mem_claimsAt {proof : EvalProof} :
    proof ∈ claimsAt (evalSites.map EvalSite.toClaim) path line
      ↔ ∃ site ∈ evalSites, site.At path line ∧ site.proof.toClaim = proof := by
  rw [claimsAt, List.mem_map]
  constructor
  · rintro ⟨claim, hclaim, rfl⟩
    obtain ⟨hmem, hat⟩ := List.mem_filter.mp hclaim
    obtain ⟨site, hsite, rfl⟩ := List.mem_map.mp hmem
    rw [Bool.and_eq_true, beq_iff_eq, beq_iff_eq] at hat
    exact ⟨site, hsite, hat, rfl⟩
  · rintro ⟨site, hsite, hat, rfl⟩
    refine ⟨site.toClaim, List.mem_filter.mpr ⟨List.mem_map_of_mem hsite, ?_⟩, rfl⟩
    rw [Bool.and_eq_true, beq_iff_eq, beq_iff_eq]
    exact hat

theorem toClaim_injective : Function.Injective SiteProof.toClaim := by
  intro a b h
  cases a <;> cases b <;> first | rfl | cases h

theorem laneOf_unsupported :
    laneOf claims = some .unsupported ↔ claims = [] ∨ .dynamic ∈ claims := by
  rw [laneOf]
  split_ifs with hopen hconst
  · exact iff_of_true rfl hopen
  · exact iff_of_false (by decide) hopen
  · exact iff_of_false (by decide) hopen

theorem laneOf_potentialGap :
    laneOf claims = some .potentialGap ↔ .constUnproven ∈ claims ∧ .dynamic ∉ claims := by
  rw [laneOf]
  split_ifs with hopen hconst
  · refine iff_of_false (by decide) fun ⟨hconst, hdynamic⟩ => ?_
    rcases hopen with rfl | hmem
    · cases hconst
    · exact hdynamic hmem
  · exact iff_of_true rfl ⟨hconst, fun hmem => hopen (.inr hmem)⟩
  · exact iff_of_false (by decide) fun h => hconst h.1

theorem laneOf_none :
    laneOf claims = none ↔ claims ≠ [] ∧ ∀ proof ∈ claims, proof = .covered := by
  rw [laneOf]
  split_ifs with hopen hconst
  · refine iff_of_false (by decide) fun ⟨hne, hall⟩ => ?_
    rcases hopen with hnil | hmem
    · exact hne hnil
    · cases hall _ hmem
  · refine iff_of_false (by decide) fun ⟨_, hall⟩ => ?_
    cases hall _ hconst
  · refine iff_of_true rfl ⟨fun hnil => hopen (.inl hnil), fun proof hproof => ?_⟩
    cases proof with
    | covered => rfl
    | constUnproven => exact absurd hproof hconst
    | dynamic => exact absurd (.inr hproof) hopen

/-! ### Reports -/

theorem reconciled_of_walk {files : List WalkedFile}
    (h : filesUntil (walkOf tree neverBreaks) tree.listing = .ok (some files)) :
    ∃ report, reconciledPreflightReport tree capture plugins evalSites = .ok report := by
  have hscan : ∀ (total done : ℕ) (files : List WalkedFile) (p : Progress),
      ∃ p', scanFiles tree (proofSource capture (evalSites.map EvalSite.toClaim)) plugins neverBreaks
        total done files p = some p' := by
    intro total done files p
    induction files generalizing done p with
    | nil => exact ⟨p, rfl⟩
    | cons file rest ih =>
      rw [scanFiles, neverBreaks, if_neg Bool.false_ne_true]
      exact ih _ _
  obtain ⟨p, hp⟩ := hscan files.length 0 files .start
  rw [reconciledPreflightReport, preflightScan, h]
  dsimp only
  rw [hp]
  exact ⟨_, rfl⟩

theorem scan_of_reconciled
    (h : reconciledPreflightReport tree capture plugins evalSites = .ok report) :
    preflightScan tree (proofSource capture (evalSites.map EvalSite.toClaim)) plugins neverBreaks
      = .ok (some report) := by
  rw [reconciledPreflightReport] at h
  split at h
  · cases h
  · cases h
  · next hscan =>
    cases h
    exact hscan

theorem proofSource_claims (capture : Option Capture) (claims : List EvalSiteCoverage) :
    (proofSource capture claims).claimed = some claims
      ∧ (proofSource capture claims).members = (proofSource capture []).members
      ∧ (proofSource capture claims).retained = (proofSource capture []).retained := by
  cases capture with
  | none | some capture => exact ⟨rfl, rfl, rfl⟩

/-- **Findings of a line.**  A line is reported when it has a textual hit, on the lane of the
claims at it. -/
theorem reportedAt_iff (h : reconciledPreflightReport tree capture plugins evalSites = .ok report)
    (lane : Lane) (path : String) (line : ℕ) :
    ReportedAt (report.on lane) path line ↔ TextualHit tree capture path line
      ∧ laneOf (claimsAt (evalSites.map EvalSite.toClaim) path line) = some lane := by
  have hscan := scan_of_reconciled h
  obtain ⟨files, -, hfiles, -⟩ := preflightScan_eq hscan
  obtain ⟨hclaimed, hmembers, hretained⟩ :=
    proofSource_claims capture (evalSites.map EvalSite.toClaim)
  have hscans : ∀ rel, Scans (proofSource capture (evalSites.map EvalSite.toClaim)) files rel
      ↔ Scans (proofSource capture []) files rel := by
    intro rel
    rw [Scans, Scans, hmembers]
  have htext : ∀ rel, sourceText tree (proofSource capture (evalSites.map EvalSite.toClaim)) rel
      = sourceText tree (proofSource capture []) rel := by
    intro rel
    rw [sourceText, sourceText, hretained]
  constructor
  · rintro ⟨f, hf, hkind, rfl, rfl⟩
    obtain ⟨rel, hrel, hmem⟩ := (mem_scanned_iff hscan hfiles hkind).mp hf
    obtain ⟨text, hsource, l, hl, hline⟩ := (mem_scanSource hkind).mp hmem
    obtain ⟨hhit, hlane, hfinding⟩ := (mem_inlineEval hclaimed).mp hline
    -- the finding is at the line it was made for
    obtain rfl : f = finding "inline-eval" rel l.1 (evalMessage (contains "eval(" l.2) lane) :=
      hfinding
    exact ⟨⟨files, hfiles, (hscans rel).mp hrel, text, htext rel ▸ hsource, l, hl, rfl, hhit⟩, hlane⟩
  · rintro ⟨⟨files', hfiles', hrel, text, hsource, l, hl, rfl, hhit⟩, hlane⟩
    obtain rfl : files = files' := by
      rw [hfiles] at hfiles'
      exact Option.some.inj (Except.ok.inj hfiles')
    refine ⟨finding "inline-eval" path l.1 (evalMessage (contains "eval(" l.2) lane), ?_, rfl, rfl, rfl⟩
    refine (mem_scanned_iff hscan hfiles rfl).mpr ⟨path, (hscans path).mpr hrel, ?_⟩
    refine (mem_scanSource rfl).mpr ⟨text, (htext path).trans hsource, l, hl, ?_⟩
    exact (mem_inlineEval hclaimed).mpr ⟨hhit, hlane, rfl⟩

/-! ### Lost sites -/

theorem hit_of_reported (lane : Lane)
    (h : reconciledPreflightReport tree capture plugins evalSites = .ok report)
    (hreported : ReportedAt (report.on lane) path line) : TextualHit tree capture path line :=
  ((reportedAt_iff h lane path line).mp hreported).1

theorem reported_of_hit (lane : Lane)
    (h : reconciledPreflightReport tree capture plugins evalSites = .ok report)
    (hhit : TextualHit tree capture path line) : ReportedAt (report.on lane) path line
      ↔ laneOf (claimsAt (evalSites.map EvalSite.toClaim) path line) = some lane :=
  (reportedAt_iff h lane path line).trans (and_iff_right hhit)

theorem closed_of_hit (h : reconciledPreflightReport tree capture plugins evalSites = .ok report)
    (hhit : TextualHit tree capture path line) :
    (¬ReportedAt report.unsupported path line ∧ ¬ReportedAt report.potentialGaps path line)
      ↔ (∃ site ∈ evalSites, site.At path line)
        ∧ ∀ site ∈ evalSites, site.At path line → site.proof = .covered := by
  have hunsupported := reported_of_hit .unsupported h hhit
  have hgap := reported_of_hit .potentialGap h hhit
  have hlane : (¬ReportedAt report.unsupported path line ∧ ¬ReportedAt report.potentialGaps path line)
      ↔ laneOf (claimsAt (evalSites.map EvalSite.toClaim) path line) = none := by
    rw [show report.unsupported = report.on .unsupported from rfl,
      show report.potentialGaps = report.on .potentialGap from rfl, hunsupported, hgap]
    cases laneOf (claimsAt (evalSites.map EvalSite.toClaim) path line) with
    | none => simp
    | some lane => cases lane <;> simp
  rw [hlane, laneOf_none]
  constructor
  · rintro ⟨hne, hall⟩
    obtain ⟨proof, hproof⟩ := List.exists_mem_of_ne_nil _ hne
    obtain ⟨site, hsite, hat, -⟩ := mem_claimsAt.mp hproof
    refine ⟨⟨site, hsite, hat⟩, fun site hsite hat => ?_⟩
    exact toClaim_injective (hall _ (mem_claimsAt.mpr ⟨site, hsite, hat, rfl⟩))
  · rintro ⟨⟨site, hsite, hat⟩, hall⟩
    refine ⟨List.ne_nil_of_mem (mem_claimsAt.mpr ⟨site, hsite, hat, rfl⟩), fun proof hproof => ?_⟩
    obtain ⟨site, hsite, hat, rfl⟩ := mem_claimsAt.mp hproof
    rw [hall site hsite hat]
    rfl

/-- **Lost sites.**  No site is lost if and only if every site that is not covered begins at a
line with a textual hit, of a script that the scan reads. -/
theorem classified_iff (h : reconciledPreflightReport tree capture plugins evalSites = .ok report) :
    Classified tree capture evalSites report
      ↔ ∀ site ∈ evalSites, site.proof ≠ .covered → TextualHit tree capture site.path site.line := by
  constructor
  · intro hclassified site hsite hopen
    by_cases hdynamic : ∃ other ∈ evalSites, other.At site.path site.line ∧ other.proof = .dynamic
    · -- the dynamic site of the line is reported
      obtain ⟨other, hother, ⟨hpath, hline⟩, hproof⟩ := hdynamic
      have hreported := hclassified.dynamic other hother hproof
      rw [hpath, hline] at hreported
      exact hit_of_reported .unsupported h hreported
    · have hunproven : site.proof = .constUnproven := by
        cases hproof : site.proof with
        | covered => exact absurd hproof hopen
        | constUnproven => rfl
        | dynamic => exact absurd ⟨site, hsite, ⟨rfl, rfl⟩, hproof⟩ hdynamic
      refine hit_of_reported .potentialGap h (hclassified.unproven site.path site.line
        ⟨site, hsite, ⟨rfl, rfl⟩, hunproven⟩ fun other hother hat hproof => ?_)
      exact hdynamic ⟨other, hother, hat, hproof⟩
  · intro hhits
    refine ⟨fun site hsite hproof => ?_, fun path line hsome hnone => ?_, fun path line hhit => ?_⟩
    · have hhit := hhits site hsite (by rw [hproof]; exact fun hcovered => nomatch hcovered)
      refine (reported_of_hit .unsupported h hhit).mpr (laneOf_unsupported.mpr (.inr ?_))
      exact mem_claimsAt.mpr ⟨site, hsite, ⟨rfl, rfl⟩, by rw [hproof]; rfl⟩
    · obtain ⟨site, hsite, ⟨rfl, rfl⟩, hproof⟩ := hsome
      have hhit := hhits site hsite (by rw [hproof]; exact fun hcovered => nomatch hcovered)
      refine (reported_of_hit .potentialGap h hhit).mpr (laneOf_potentialGap.mpr ⟨?_, fun hmem => ?_⟩)
      · exact mem_claimsAt.mpr ⟨site, hsite, ⟨rfl, rfl⟩, by rw [hproof]; rfl⟩
      · obtain ⟨other, hother, hat, hdynamic⟩ := mem_claimsAt.mp hmem
        exact hnone other hother hat (toClaim_injective hdynamic)
    · exact closed_of_hit h hhit

end

namespace Sample

/-- A tree with one script. -/
def tree (text : String) : SourceTree Unit where
  ignore := ⟨fun _ _ => none, fun _ => true, fun _ _ _ => .none⟩
  listing := .entries (.cons "a.ts" .file .nil)
  openIgnore _ := .error "No such file or directory"
  read rel := if rel = "a.ts" then some text.toUTF8.data.toList else none
  detect _ _ := ⟨[], []⟩

theorem tree_walk (text : String) :
    filesUntil (walkOf (tree text) neverBreaks) (tree text).listing
      = .ok (some [⟨"a.ts", "a.ts"⟩]) := rfl

theorem utf8_toUTF8 (text : String) : utf8 text.toUTF8.data.toList = some text.toList := by
  have hbytes : (⟨text.toUTF8.data.toList.toArray⟩ : ByteArray) = text.toUTF8 := by
    rw [Array.toArray_toList]
  have hvalid : text.toUTF8.IsValidUTF8 := text.isValidUTF8
  rw [utf8, hbytes, String.fromUTF8?, dif_pos hvalid]
  rfl

/-- A call with a blank before its parenthesis. -/
def spaced : String := "eval (a + b);\n"

def entry : FileEntry :=
  ⟨"a.ts", "29214285607e11e838f4727d7deaa9d49e2205e02b7560d78f0b87a46a8b0761", 14, none⟩

def capture : Capture :=
  let id := "capture-v1:f7a18290939ffcaf560b7c92b487d09d42cdbde084e51a8b516748f6f0be2114"
  let manifest : CaptureManifest := ⟨1, ⟨"local/app", by decide⟩, .workingTree, [entry]⟩
  ⟨id, manifest, Table.empty.put "a.ts"
    ⟨fileRef manifest id entry, spaced.toUTF8.data.toList, MAX_SPAN_BYTES⟩, MAX_SPAN_BYTES⟩

def site : EvalSite := ⟨"a.ts", 1, .dynamic⟩

theorem captured_text :
    sourceText (tree spaced) (proofSource (some capture) []) "a.ts" = some spaced.toList := by
  have hfile : (proofSource (some capture) []).retained "a.ts" = some spaced.toUTF8.data.toList := rfl
  rw [sourceText, hfile]
  exact utf8_toUTF8 spaced

theorem spaced_no_hit : ¬TextualHit (tree spaced) (some capture) "a.ts" 1 := by
  rintro ⟨files, -, -, text, htext, l, hl, -, hhit⟩
  obtain rfl := Option.some.inj (captured_text.symm.trans htext)
  have hlines : ∀ l ∈ numbered spaced.toList, textualHit l.2 = false := by decide
  rw [hlines l hl] at hhit
  cases hhit

theorem plain_hit : TextualHit (tree "eval(a + b);\n") none "a.ts" 1 := by
  refine ⟨_, tree_walk _, .inl ⟨_, List.mem_singleton_self _, by decide, rfl⟩,
    "eval(a + b);\n".toList, ?_, (1, "eval(a + b);".toList), by decide, rfl,
    by decide⟩
  exact utf8_toUTF8 "eval(a + b);\n"

end Sample

/-- With no blank before the parenthesis the same call is reported. -/
theorem classified_plain : ∃ report,
    reconciledPreflightReport (Sample.tree "eval(a + b);\n") none [] [Sample.site] = .ok report
      ∧ Classified (Sample.tree "eval(a + b);\n") none [Sample.site] report := by
  obtain ⟨report, hreport⟩ : ∃ report, reconciledPreflightReport (Sample.tree "eval(a + b);\n") none []
      [Sample.site] = .ok report := reconciled_of_walk (Sample.tree_walk _)
  refine ⟨report, hreport, (classified_iff hreport).mpr fun site hsite _ => ?_⟩
  rw [List.mem_singleton.mp hsite]
  exact Sample.plain_hit

/-- A dynamic call is lost when a blank stands before its parenthesis. -/
theorem spaced_call_lost : ¬∀ (tree : SourceTree Unit) (capture : Option Capture)
    (plugins : List PluginCoverage) (evalSites : List EvalSite) (report : Report),
    reconciledPreflightReport tree capture plugins evalSites = .ok report →
      Classified tree capture evalSites report := by
  intro hall
  obtain ⟨report, hreport⟩ : ∃ report, reconciledPreflightReport (Sample.tree Sample.spaced)
      (some Sample.capture) [] [Sample.site] = .ok report := reconciled_of_walk (Sample.tree_walk _)
  have hreported := (hall _ _ _ _ report hreport).dynamic Sample.site (List.mem_singleton_self _) rfl
  exact Sample.spaced_no_hit (hit_of_reported .unsupported hreport hreported)

end Preflight.Scan
