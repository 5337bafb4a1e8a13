import ApiContract.Proofs.Imports
import ApiContract.Proofs.Undocumented

/-!
What summaries do to a module. Each is a comment put into the module that there is without any, and
nothing else; but a line of it that looks like an import is taken for one, so that it leaves the
comment and joins the imports.
-/

namespace ApiContract

namespace Module

variable {options : Options} {c : Content}

/-- A comment in the text of a module. -/
def commentText (options : Options) (comment : List (List Char)) : List Char :=
  layComment options comment ++ options.lineEnding.text.toList

/-- Some line of a comment is an import. -/
def Imported (comment : List (List Char)) : Prop := ∃ l ∈ comment, Layout.isImport l = true

instance (comment : List (List Char)) : Decidable (Imported comment) :=
  inferInstanceAs (Decidable (∃ l ∈ comment, Layout.isImport l = true))

theorem flatMap_eq_intercalate {lines : List (List Char)} (h : lines ≠ []) (ending : List Char) :
    lines.flatMap (· ++ ending) = ending.intercalate lines ++ ending := by
  induction lines with
  | nil => exact absurd rfl h
  | cons line lines ih =>
    cases lines with
    | nil => simp [List.intercalate]
    | cons other lines =>
      rw [List.flatMap_cons, ih (List.cons_ne_nil _ _), List.intercalate_cons_cons]
      simp only [List.append_assoc]

theorem exists_summary {comment : List (List Char)} (h : comment ∈ c.comments) :
    ∃ summary, comment = commentLines summary := by
  obtain ⟨k, _, hcomment⟩ := List.mem_flatMap.mp h
  obtain ⟨summary, _, rfl⟩ := Option.map_eq_some_iff.mp (Option.mem_toList.mp hcomment)
  exact ⟨summary, rfl⟩

/-- Every comment keeps its first line, so there is a text of it. -/
theorem commentText_eq (options : Options) (summary : String) :
    (((commentLines summary).filter (!Layout.isImport ·)).map
      (Layout.finish options.indentation)).flatMap (· ++ options.lineEnding.text.toList) =
        commentText options (commentLines summary) := by
  obtain ⟨first, others, heq, _⟩ := commentLines_eq summary
  rw [commentText, layComment]
  refine flatMap_eq_intercalate ?_ _
  rw [heq, List.filter_cons_of_pos (by rw [isImport_opening]; rfl)]
  exact List.cons_ne_nil _ _

theorem spliced_bodyText (options : Options) (c : Content) :
    Spliced (c.comments.map (commentText options)) (bodyText options c.undocumented)
      (bodyText options c) := by
  have hbody := (spliced_body options c).flatMap (· ++ options.lineEnding.text.toList)
  rw [List.map_map] at hbody
  have hcomments : c.comments.map (commentText options) = c.comments.map
      (List.flatMap (· ++ options.lineEnding.text.toList) ∘ fun comment =>
        (comment.filter (!Layout.isImport ·)).map (Layout.finish options.indentation)) := by
    refine List.map_congr_left fun comment hcomment => ?_
    obtain ⟨summary, rfl⟩ := exists_summary hcomment
    exact (commentText_eq options summary).symm
  rw [hcomments]
  exact hbody

/-- What stands above the body of a module. -/
def headText (options : Options) (c : Content) : List Char :=
  (notice.toList :: (imports options c ++ [[]])).flatMap (· ++ options.lineEnding.text.toList)

theorem toList_text_eq (options : Options) (c : Content) :
    (text options c).toList = headText options c ++ bodyText options c := by
  rw [toList_text, headText, bodyText, ← List.flatMap_append]
  simp only [imports, List.cons_append, List.append_assoc, List.nil_append]

/-- How the summaries of a content show in its module. -/
structure Documented (options : Options) (c : Content) (text : String) : Prop where
  parts : text.toList = headText options c ++ bodyText options c
  /-- Below the imports, the comments stand in what there is without them. -/
  body : Spliced (c.comments.map (commentText options)) (bodyText options c.undocumented)
    (bodyText options c)
  /-- Each of them ends where it ended, unless its last line is an import. -/
  comments : ∀ comment ∈ c.comments, IsComment (layComment options comment) ↔ KeepsEnd comment
  /-- The imports stay exactly if those in the comments are there anyway. -/
  gathered : imports options c = imports options c.undocumented ↔
    ∀ l ∈ commentImports c, l ∈ imports options c.undocumented
  /-- With names on one line each, those that are there anyway are known. -/
  fixed : (∀ x ∈ c.generated, OneLine x.name) →
    imports options c.undocumented = fixedImports options.mark c.includesHandlers
  /-- So without imports in them, comments are all that summaries add. -/
  whole : (∀ comment ∈ c.comments, ¬ Imported comment) →
    (∀ comment ∈ c.comments, IsComment (layComment options comment)) ∧
      Spliced (c.comments.map (commentText options)) (Module.text options c.undocumented).toList
        text.toList

theorem isComment_of_comments {comment : List (List Char)} (h : comment ∈ c.comments) :
    IsComment (layComment options comment) ↔ KeepsEnd comment := by
  obtain ⟨summary, rfl⟩ := exists_summary h
  exact isComment_layComment_iff options summary

theorem keepsEnd_of_not_imported {comment : List (List Char)} (h : ¬ Imported comment) :
    KeepsEnd comment := by
  intro last hlast
  by_contra himport
  exact h ⟨last, List.mem_of_getLast? hlast, Bool.eq_true_of_not_eq_false himport⟩

theorem imports_of_not_imported (h : ∀ comment ∈ c.comments, ¬ Imported comment) :
    imports options c = imports options c.undocumented := by
  refine imports_eq_iff.mpr fun l hl => ?_
  obtain ⟨comment, hcomment, hl⟩ := List.mem_flatMap.mp hl
  obtain ⟨line, hline, himport, _⟩ := Layout.mem_importBlock.mp hl
  exact absurd ⟨line, hline, himport⟩ (h comment hcomment)

theorem spliced_text (h : ∀ comment ∈ c.comments, ¬ Imported comment) :
    Spliced (c.comments.map (commentText options)) (text options c.undocumented).toList
      (text options c).toList := by
  have hhead : headText options c.undocumented = headText options c := by
    rw [headText, headText, imports_of_not_imported h]
  have htext := (spliced_bodyText options c).append_left (headText options c)
  rwa [← toList_text_eq, ← hhead, ← toList_text_eq] at htext

end Module

namespace Generation

theorem documented_of_content {source : Source} {options : Options} {selection : Selection}
    {c : Module.Content} {text : String} (hc : (content source options selection).outcome = .ok c)
    (htext : (moduleText options c).outcome = .ok text) : Module.Documented options c text := by
  obtain ⟨_, rfl⟩ := moduleText_eq_ok.mp htext
  refine ⟨Module.toList_text_eq options c, Module.spliced_bodyText options c,
    fun _ => Module.isComment_of_comments, Module.imports_eq_iff, fun hnames => ?_, fun hplain => ?_⟩
  · exact Module.imports_undocumented options (onLines_of_content hc hnames)
  · refine ⟨fun comment hcomment => ?_, Module.spliced_text hplain⟩
    exact (Module.isComment_of_comments hcomment).mpr
      (Module.keepsEnd_of_not_imported (hplain comment hcomment))

/-- Documents that agree but for summaries give modules that do. Both are one and the same module
with comments put in, which are those of the summaries, except that a line of a comment that looks
like an import goes to the imports. -/
theorem summaries_inert {source source' : Source} {options : Options} {selection : Selection}
    {d d' : Document} {c : Module.Content} {text : String}
    (hd : (normalize source).outcome = .ok d) (hd' : (normalize source').outcome = .ok d')
    (hsame : d'.undocumented = d.undocumented)
    (hc : (content source options selection).outcome = .ok c)
    (htext : (moduleText options c).outcome = .ok text) :
    ∃ c' text', (content source' options selection).outcome = .ok c' ∧
      (moduleText options c').outcome = .ok text' ∧ c'.undocumented = c.undocumented ∧
        Module.Documented options c text ∧ Module.Documented options c' text' := by
  obtain ⟨c', hc', hsame'⟩ := content_undocumented hd hd' hsame hc
  have htext' : (moduleText options c').outcome = .ok (Module.text options c') :=
    moduleText_eq_ok.mpr ⟨(moduleText_eq_ok.mp htext).1, rfl⟩
  exact ⟨c', _, hc', htext', hsame', documented_of_content hc htext,
    documented_of_content hc' htext'⟩

/-- A description of one operation with a summary. -/
def listing (summary : String) : Value :=
  .map [(.str "servers", .seq [.map [(.str "url", .str "/v1")] 0] 0),
    (.str "paths", .map [(.str "/pets", .map [(.str "get",
      .map [(.str "summary", .str summary)] 0)] 0)] 0)] 0

/-- The content of the module for a listing. -/
def listingContent (summary : String) : Module.Content :=
  ((content (.raw (listing summary)) .standard ⟨false, true⟩).outcome.toOption).getD ⟨[], [], []⟩

theorem summaries_inert_listing : ∃ text',
    (moduleText .standard (listingContent "List */\nall pets")).outcome = .ok text' ∧
      Module.Spliced
        ((listingContent "List */\nall pets").comments.map (Module.commentText .standard))
        (Module.text .standard (listingContent "List").undocumented).toList text'.toList := by
  have hcontent : (content (.raw (listing "List")) .standard ⟨false, true⟩).outcome =
      .ok (listingContent "List") := rfl
  obtain ⟨c', text', hc', htext', hsame, _, hdocumented⟩ :=
    @summaries_inert (.raw (listing "List")) (.raw (listing "List */\nall pets")) .standard
      ⟨false, true⟩ _ _ _ _ rfl rfl rfl hcontent rfl
  have hcontent' : c' = listingContent "List */\nall pets" := by
    rw [listingContent, hc']
    rfl
  subst hcontent'
  have hplain : ∀ comment ∈ (listingContent "List */\nall pets").comments,
      ¬ Module.Imported comment := by
    decide
  refine ⟨text', htext', ?_⟩
  rw [← hsame]
  exact (hdocumented.whole hplain).2

/-- A line in the middle of a summary that looks like an import becomes one. -/
theorem summaries_inert_fails : ∃ c text,
    (content (.raw (listing "List\nimport fs from \"fs\";\npets")) .standard ⟨false, true⟩).outcome =
        .ok c ∧
      (moduleText .standard c).outcome = .ok text ∧ (∀ x ∈ c.generated, OneLine x.name) ∧
      Module.imports .standard c ≠
        Module.fixedImports Options.standard.mark c.includesHandlers := by
  refine ⟨listingContent "List\nimport fs from \"fs\";\npets", _, rfl, rfl, by decide,
    fun hsame => ?_⟩
  have hcomment : "import fs from \"fs\";".toList ∈
      Module.commentImports (listingContent "List\nimport fs from \"fs\";\npets") := by
    decide
  have himport := (@Module.mem_imports .standard _ _).mpr (.inr hcomment)
  rw [hsame] at himport
  revert himport
  decide

end Generation

end ApiContract
