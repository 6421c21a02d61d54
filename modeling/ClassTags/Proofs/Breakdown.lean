import ClassTags.Proofs.ArgumentOrder
import ClassTags.Proofs.Canonical
import ClassTags.Proofs.LiteralFailure
import ClassTags.Proofs.Reading
import ClassTags.Proofs.Statements

/-!
# What the contents of a file can do

Every source text ends in one of three ways: it has a program, it has a syntax error in a line, or
reading it comes to a literal without a value. The grammar sees to it that no other failure is
possible: no part is absent, and every escape sequence has one of the forms that have a value,
unless the number in its braces is no code point.

The command reports syntax errors and duplicate classes. It does not report a literal without a
value, and breaks off without a word. Nothing else in the contents of a file breaks it, as far as it
is described here: trees may be nested to any depth, and that an interpreter of the command gives up
at some depth is left out.

Main definitions:

* `SyntaxTree.Fails` — a literal has no value;
* `Valueless` — reading a source text comes to a literal without a value.

Main results:

* `Program.readingEnd` — how reading a source text ends;
* `Registry.checkingEnd` — how checking a file ends;
* `CommandLine.ends_by_contents` — these, and how the command ends.
-/

namespace ClassTags

-- ---------------------------------------------------------------------------
-- Literals without a value
-- ---------------------------------------------------------------------------

namespace SyntaxTree

variable {source : Text} {t u : SyntaxTree} {ts : List SyntaxTree} {e : Literal.Failure}

/-- A literal has no value, and why it has none. -/
inductive Fails (source : Text) (t : SyntaxTree) : Literal.Failure → Prop
  | string {piece : SyntaxTree} {e : Literal.Failure} (hKind : t.kind = .string)
      (hPiece : piece ∈ t.children) (hNamed : piece.label.named = true)
      (hEscape : piece.kind = .escapeSequence)
      (hFails : Literal.EscapeFails (piece.rawText source) e) : Fails source t e
  | number {e : Literal.Failure} (hKind : t.kind = .number)
      (hFails : Literal.NumeralFails (t.text source) e) : Fails source t e

/-- Of the pieces of a string only an escape sequence can fail, and only as its text does. -/
theorem pieceValue_eq_error_iff (h : t.WellFormed source) :
    pieceValue source t = .error e ↔
      t.kind = .escapeSequence ∧ Literal.EscapeFails (t.rawText source) e := by
  unfold pieceValue
  by_cases hKind : t.kind = .escapeSequence
  · rw [if_pos hKind, and_iff_right hKind]
    exact Literal.escapeValue_eq_error_iff (h.fits.escape hKind)
  · rw [if_neg hKind]
    exact iff_of_false nofun fun hFails => hKind hFails.1

/-- Pieces that have no value together have none alone. -/
theorem exists_pieceValue_eq_error (h : piecesValue source ts = .error e) :
    ∃ piece ∈ ts, piece.label.named = true ∧ pieceValue source piece = .error e := by
  induction ts with
  | nil => exact nomatch h
  | cons t ts ih =>
    rw [piecesValue] at h
    split at h
    case isTrue hNamed =>
      split at h
      case h_1 hPiece =>
        obtain rfl := Except.error.inj h
        exact ⟨t, List.mem_cons_self, hNamed, hPiece⟩
      case h_2 =>
        cases hRest : piecesValue source ts with
        | error e' =>
          rw [hRest] at h
          obtain rfl := Except.error.inj h
          obtain ⟨piece, hMem, hPiece⟩ := ih hRest
          exact ⟨piece, List.mem_cons_of_mem _ hMem, hPiece⟩
        | ok codes =>
          rw [hRest] at h
          exact nomatch h
    case isFalse =>
      obtain ⟨piece, hMem, hPiece⟩ := ih h
      exact ⟨piece, List.mem_cons_of_mem _ hMem, hPiece⟩

/-- If a string has a value then each of its pieces has one. -/
theorem pieceValue_of_piecesValue {codes : List Nat} (h : piecesValue source ts = .ok codes) :
    ∀ piece ∈ ts, piece.label.named = true → ∃ codes, pieceValue source piece = .ok codes := by
  induction ts generalizing codes with
  | nil => exact nofun
  | cons t ts ih =>
    rw [piecesValue] at h
    split at h
    case isTrue hNamed =>
      split at h
      case h_1 => exact nomatch h
      case h_2 first hPiece =>
        cases hRest : piecesValue source ts with
        | error e =>
          rw [hRest] at h
          exact nomatch h
        | ok others => exact List.forall_mem_cons.mpr ⟨fun _ => ⟨first, hPiece⟩, ih hRest⟩
    case isFalse hNamed => exact List.forall_mem_cons.mpr ⟨fun h => absurd h hNamed, ih h⟩

/-- A string with a value has the codes of its pieces. -/
theorem piecesValue_of_stringValue {value : Text} (h : stringValue source ts = .ok value) :
    ∃ codes, piecesValue source ts = .ok codes := by
  unfold stringValue at h
  cases hPieces : piecesValue source ts with
  | error e =>
    rw [hPieces] at h
    exact nomatch h
  | ok codes => exact ⟨codes, rfl⟩

/-- A string fails as its pieces do. -/
theorem piecesValue_of_stringValue_error (h : stringValue source ts = .error e) :
    piecesValue source ts = .error e := by
  unfold stringValue at h
  cases hPieces : piecesValue source ts with
  | error e' =>
    rw [hPieces] at h
    rw [Except.error.inj h]
  | ok codes =>
    rw [hPieces] at h
    exact nomatch h

/-- A string literal without a value has an escape sequence without one. -/
theorem Fails.of_stringValue (h : t.WellFormed source) (hKind : t.kind = .string)
    (hValue : stringValue source t.children = .error e) : t.Fails source e := by
  obtain ⟨piece, hMem, hNamed, hPiece⟩ :=
    exists_pieceValue_eq_error (piecesValue_of_stringValue_error hValue)
  obtain ⟨hEscape, hFails⟩ := (pieceValue_eq_error_iff (h.children piece hMem)).mp hPiece
  exact .string hKind hMem hNamed hEscape hFails

/-- What has a value does not fail. -/
theorem HasValue.not_fails (h : t.WellFormed source) (hValue : t.HasValue source) :
    ¬ t.Fails source e := by
  intro hFails
  cases hFails with
  | string hKind hMem hNamed hEscape hFails =>
    obtain ⟨value, hString⟩ := hValue.1 hKind
    obtain ⟨codes, hPieces⟩ := piecesValue_of_stringValue hString
    obtain ⟨own, hOwn⟩ := pieceValue_of_piecesValue hPieces _ hMem hNamed
    have hError := (pieceValue_eq_error_iff (h.children _ hMem)).mpr ⟨hEscape, hFails⟩
    exact nomatch hOwn.symm.trans hError
  | number hKind hFails =>
    obtain ⟨value, hNumber⟩ := hValue.2 hKind
    exact nomatch hNumber.symm.trans (Literal.numberValue_eq_error_iff.mpr hFails)

-- ---------------------------------------------------------------------------
-- The trees of the grammar
-- ---------------------------------------------------------------------------

theorem fieldChild?_ne_none {f : SyntaxField} (h : HasField f ts) : fieldChild? f ts ≠ none := by
  obtain ⟨c, hc, hField⟩ := h
  intro hNone
  exact List.find?_eq_none.mp hNone c hc (by simpa using hField)

/-- In a well-formed tree no part is absent. -/
theorem WellFormed.complete (h : t.WellFormed source) : t.Complete := by
  have hField : ∀ {u : SyntaxTree} {f : SyntaxField}, u.WellFormed source →
      f ∈ u.kind.requiredFields → fieldChild? f u.children ≠ none := fun hu hf =>
    fieldChild?_ne_none (hu.fits.fields _ hf)
  refine ⟨fun hKind => hField h (by rw [hKind]; decide), fun _ entry hEntry => ?_⟩
  have hWell := h.children entry (mem_children_of_mem_parts hEntry)
  refine ⟨fun hKind => ⟨hField hWell ?_, hField hWell ?_⟩, fun hKind => hField hWell ?_⟩
  all_goals
    rw [hKind]
    decide

end SyntaxTree

-- ---------------------------------------------------------------------------
-- Source texts
-- ---------------------------------------------------------------------------

/-- A source text has no syntax error, but reading it comes to a literal without a value. -/
def Valueless (source : Text) (e : Literal.Failure) : Prop :=
  (SyntaxTree.ofSource source).errorLine? source = none ∧
    ∃ u, (SyntaxTree.ofSource source).ComesTo u ∧ u.Fails source e

/-- A source text has neither a syntax error nor a literal without a value that is read. -/
def Legible (source : Text) : Prop :=
  (SyntaxTree.ofSource source).errorLine? source = none ∧ ∀ e, ¬ Valueless source e

/-- How reading a source text ends. -/
inductive Program.ReadingEnd (path source : Text) : Except SourceFailure Program → Prop
  | program (p : Program) (h : Legible source) : ReadingEnd path source (.ok p)
  | malformed (line : Nat) (h : (SyntaxTree.ofSource source).errorLine? source = some line) :
    ReadingEnd path source (.error (.malformed path line))
  | valueless (e : Literal.Failure) (h : Valueless source e) :
    ReadingEnd path source (.error (.literal e))

/-- **How reading a source text ends**: with a program, at a syntax error, or at a literal without a
value. -/
theorem Program.readingEnd (path source : Text) :
    ReadingEnd path source (ofSource path source).result := by
  have hWell : (SyntaxTree.ofSource source).errorLine? source = none →
      ∀ u, (SyntaxTree.ofSource source).ComesTo u → u.WellFormed source := fun hClear u hu =>
    (SyntaxTree.hereditary_wellFormed source).comesTo
      (SyntaxTree.wellFormed_of_errorLine? hClear).children hu
  have hWithin : (ofSource path source).Within Notice.IsSkippedEntry
      (Refused path source (.ofSource source)) _ :=
    ofTree_within (T := fun _ => True) (fun _ _ _ _ => trivial) fun _ _ _ => trivial
  cases hResult : (ofSource path source).result with
  | ok p =>
    obtain ⟨hClear, hValues⟩ := succeeds_ofTree.mp ⟨p, hResult⟩
    refine .program p ⟨hClear, fun e ⟨_, u, hu, hFails⟩ => ?_⟩
    exact (hValues u hu).1.not_fails (hWell hClear u hu) hFails
  | error e =>
    cases hWithin.failure e hResult with
    | malformed hLine => exact .malformed _ hLine
    | unread hClear hCause =>
      cases hCause with
      | string hu hKind hValue =>
        exact .valueless _ ⟨hClear, _, hu, .of_stringValue (hWell hClear _ hu) hKind hValue⟩
      | number hu hKind hValue =>
        exact .valueless _ ⟨hClear, _, hu, .number hKind (Literal.numberValue_eq_error_iff.mp hValue)⟩
      | absent hu hComplete => exact absurd (hWell hClear _ hu).complete hComplete

-- ---------------------------------------------------------------------------
-- Files
-- ---------------------------------------------------------------------------

namespace Registry

variable {defineCalls : List Text} {fs : FileSystem} {path : Text} {bytes : List UInt8}
  {e : IndexFailure}

/-- How checking a file ends, by the text that it contains. -/
inductive CheckingEnd (path source : Text) : Except IndexFailure Bool → Prop
  | indexed (h : Legible source) : CheckingEnd path source (.ok true)
  | duplicate (name holder : Text) (h : Legible source) :
    CheckingEnd path source (.error (.duplicate name holder path))
  | malformed (line : Nat) (h : (SyntaxTree.ofSource source).errorLine? source = some line) :
    CheckingEnd path source (.error (.source (.malformed path line)))
  | valueless (e : Literal.Failure) (h : Valueless source e) :
    CheckingEnd path source (.error (.source (.literal e)))

/-- Adding classes of a file fails only because another file has one of them. -/
theorem claims_failsOnly (cs : List ClassRecord) :
    Action.FailsOnly (fun _ => True) (fun e => ∃ name holder, e = .duplicate name holder path)
      (Action.forEach (claim path) cs) := by
  refine .forEach (fun _ _ _ _ => trivial) fun c _ => ?_
  refine .bind .state .state fun r => ?_
  split
  · split
    · exact .update _
    · exact .fail ⟨_, _, rfl⟩
  · exact .update _

/-- A source text without a program has no classes, for the same cause. -/
theorem classesOfSource_eq_error {cause : SourceFailure} {source : Text}
    (h : (Program.ofSource path source).result = .error cause) :
    (classesOfSource defineCalls path source).result = .error cause := by
  show (Logged.bind _ _).result = _
  unfold Logged.bind
  rw [h]

/-- The classes of a source text are those of its program. -/
theorem classesOfSource_eq_ok {p : Program} {source : Text}
    (h : (Program.ofSource path source).result = .ok p) :
    (classesOfSource defineCalls path source).result = .ok (p.classes defineCalls path) := by
  show (Logged.bind _ _).result = _
  unfold Logged.bind
  rw [h]
  rfl

/-- **How checking a file that can be read ends.** -/
theorem checkingEnd (hPath : accepts path = true) (hRead : fs.read path = .ok bytes)
    (r : Registry) :
    CheckingEnd path (contents bytes) (check defineCalls fs path r).result := by
  obtain ⟨notices, hCheck⟩ := Holdings.check_apply defineCalls fs hPath r
  rw [hCheck, fileClasses_of_bytes hRead, classesOfBytes]
  have hEnd := Program.readingEnd path (contents bytes)
  generalize hProgram : (Program.ofSource path (contents bytes)).result = result at hEnd
  unfold contents at hProgram
  cases hEnd with
  | program p hLegible =>
    rw [classesOfSource_eq_ok hProgram]
    dsimp only
    cases hClaims : (Action.forEach (claim path) (p.classes defineCalls path)
        ((r.retract path).track path)).result with
    | ok u => exact .indexed hLegible
    | error e =>
      obtain ⟨name, holder, rfl⟩ := claims_failsOnly _ _ trivial e hClaims
      exact .duplicate name holder hLegible
  | malformed line hLine =>
    rw [classesOfSource_eq_error hProgram]
    exact .malformed line hLine
  | valueless e hValueless =>
    rw [classesOfSource_eq_error hProgram]
    exact .valueless e hValueless

end Registry

-- ---------------------------------------------------------------------------
-- The command
-- ---------------------------------------------------------------------------

/-- A failure that the command reports, or that comes from one of the given files, in which there is
a literal without a value. -/
inductive IndexFailure.Blamed (files : FileSystem) (F : Text → Prop) : IndexFailure → Prop
  | reported {e : IndexFailure} (h : CommandLine.IndexFailure.isReported e = true) : Blamed files F e
  | valueless {e : Literal.Failure} (path : Text) (bytes : List UInt8) (hPath : F path)
      (hRead : files.read path = .ok bytes) (h : Valueless (contents bytes) e) :
    Blamed files F (.source (.literal e))

namespace Indexer

variable {ctx : IndexContext} {F : Text → Prop}

/-- A check that fails is reported, or blames a literal without a value in the file it has
opened. -/
theorem check_blames {p : Text} (hPath : Registry.accepts p = true) (hp : Opens ctx p → F p)
    {x : Indexer} {e : IndexFailure} (h : (Step.run ctx (.check p) x).result = .error e) :
    IndexFailure.Blamed ctx.files F e := by
  rw [check_step_eq_error] at h
  cases hRead : ctx.files.read p with
  | ok bytes =>
    have hEnd : Registry.CheckingEnd p (contents bytes)
        (Registry.check ctx.defineCalls ctx.files p x.registry).result :=
      Registry.checkingEnd hPath hRead x.registry
    rw [h] at hEnd
    cases hEnd with
    | duplicate => exact .reported rfl
    | malformed => exact .reported rfl
    | valueless e hValueless => exact .valueless p bytes (hp ⟨bytes, hRead⟩) hRead hValueless
  | error fault =>
    obtain ⟨notices, hCheck⟩ := Holdings.check_apply ctx.defineCalls ctx.files hPath x.registry
    rw [hCheck, Registry.fileClasses, hRead] at h
    cases fault with
    | missing => exact nomatch h
    | _ =>
      obtain rfl := Except.error.inj h
      exact .reported rfl

end Indexer

namespace CommandLine

variable {s : Surroundings}

/-- How the command ends, whatever the files contain. If it breaks off, one of the files that its
arguments stand for has a literal without a value. -/
inductive CommandEnd (s : Surroundings) (arguments : List Text) : Ending × Option Breakdown → Prop
  | fine (ending : Ending) (hCode : ending.code = 0) : CommandEnd s arguments (ending, none)
  | misused (e : UsageFailure) (h : request arguments = .error e) :
    CommandEnd s arguments (misused e, none)
  | reported (log : Text) (e : IndexFailure) (h : IndexFailure.isReported e = true) :
    CommandEnd s arguments ({ code := 1, diagnostics := log ++ errorLine e.message }, none)
  | valueless (log path : Text) (paths : List Text) (bytes : List UInt8) (e : Literal.Failure)
      (hPaths : request arguments = .ok (.index paths))
      (hSelected : Selected s.context (paths.map (Path.absolute s.directory)) path)
      (hRead : s.files.read path = .ok bytes) (h : Valueless (contents bytes) e) :
    CommandEnd s arguments
      ({ code := 1, diagnostics := log }, some (.failure (.source (.literal e))))

/-- A path that the command may check: if it can be opened, it is one of those that the given paths
stand for. -/
structure MayCheck (ctx : IndexContext) (roots : List Text) (p : Text) : Prop where
  accepts : Registry.accepts p = true
  selected : Indexer.Opens ctx p → Selected ctx roots p

/-- A directory that a scan of one of the given paths may come to. -/
def MaySearch (ctx : IndexContext) (roots : List Text) (d : Text) : Prop :=
  ∃ b : Path.Base, b.path [] ∈ roots ∧ Indexer.Searched ctx b d

section Arguments

variable {roots : List Text}

theorem MayCheck.of_argument {b : Path.Base} (hRoot : b.path [] ∈ roots) :
    MayCheck s.context roots (b.path []) :=
  ⟨Indexer.accepts_path [], fun hOpens => ⟨_, hRoot, .itself rfl hOpens⟩⟩

variable (hDirectory : Path.isAbsolute s.directory = true) (hfs : s.files.WellNamed)

include hfs

/-- A search may go on to the directories in those that it searches. -/
theorem MaySearch.subdirs (d : Text) (hd : MaySearch s.context roots d) :
    ∀ e ∈ Indexer.subdirs s.context d, MaySearch s.context roots e := by
  obtain ⟨b, hRoot, ns, rfl, hns⟩ := hd
  intro e he
  obtain ⟨n, rfl, -, hn⟩ := Indexer.of_mem_subdirs hfs he
  refine ⟨b, hRoot, ns ++ [n], rfl, ?_⟩
  rw [List.forall_mem_append, List.forall_mem_singleton]
  exact ⟨hns, hn⟩

/-- What it finds there may be checked. -/
theorem MaySearch.sources (d : Text) (hd : MaySearch s.context roots d) :
    ∀ p ∈ Indexer.sources s.context d, MayCheck s.context roots p := by
  obtain ⟨b, hRoot, hSearched⟩ := hd
  intro p hp
  have hCheckable := Indexer.checkable_of_mem_sources hfs hSearched hp
  refine ⟨hCheckable.accepts, fun _ => ⟨_, hRoot, .inside b rfl hCheckable ?_⟩⟩
  exact Decidable.byContradiction fun hKind => Indexer.not_mem_sources hKind hp

include hDirectory

/-- An argument fails only as the command reports it or because of a file that it stands for. -/
theorem indexArgument_failsOnly {a : Text} (ha : Path.absolute s.directory a ∈ roots) :
    Action.Keeps (Indexer.Confined (MayCheck s.context roots) (MaySearch s.context roots))
        (indexArgument s a) ∧
      Action.FailsOnly (Indexer.Confined (MayCheck s.context roots) (MaySearch s.context roots))
        (IndexFailure.Blamed s.files (Selected s.context roots)) (indexArgument s a) := by
  obtain ⟨b, hPath⟩ := Path.exists_base_absolute hDirectory a
  have hRoot : b.path [] ∈ roots := hPath ▸ ha
  by_cases hKind : s.files.kind (Path.absolute s.directory a) = .ok .directory
  · rw [indexArgument_of_directory hKind, hPath]
    refine Indexer.scan_failsOnly_of_checks (fun p hp x _ e h => ?_) (fun _ _ => .reported rfl)
      (MaySearch.subdirs hfs) (MaySearch.sources hfs) (b.isAbsolute_path []) ?_
    · exact Indexer.check_blames hp.accepts hp.selected h
    · rw [b.normalize_path []]
      exact ⟨b, hRoot, [], rfl, nofun⟩
  · have hMay : MayCheck s.context roots (b.path []) := .of_argument hRoot
    refine ⟨fun x hx => ?_, fun x hx e h => ?_⟩
    · rw [(indexArgument_of_not_directory hKind x).2, hPath]
      exact Indexer.confined_check (fun _ => hMay) x hx
    · rw [(indexArgument_of_not_directory hKind x).1, hPath] at h
      exact Indexer.check_blames hMay.accepts hMay.selected h

/-- How the command ends when its arguments and its settings are understood. -/
theorem index_commandEnd (threshold : Nat) {arguments paths : List Text}
    (hPaths : request arguments = .ok (.index paths)) :
    CommandEnd s arguments (index s threshold paths) := by
  have hArgument := fun a (ha : a ∈ paths) =>
    indexArgument_failsOnly hDirectory hfs (List.mem_map_of_mem (f := Path.absolute s.directory) ha)
  have hOnly : Action.FailsOnly _ _ (Action.forEach (indexArgument s) paths) :=
    .forEach (fun a ha => (hArgument a ha).1) fun a ha => (hArgument a ha).2
  have hStart : Indexer.Confined
      (MayCheck s.context (paths.map (Path.absolute s.directory)))
      (MaySearch s.context (paths.map (Path.absolute s.directory))) {} :=
    ⟨Registry.Held.empty, nofun, nofun, List.nodup_nil⟩
  unfold index
  dsimp only
  split
  · exact .fine _ rfl
  · rename_i e hError
    cases hOnly {} hStart e hError with
    | reported h =>
      rw [if_pos h]
      exact .reported _ e h
    | valueless path bytes hSelected hRead h =>
      exact .valueless _ path paths bytes _ hPaths hSelected hRead h

end Arguments

/-- **What the contents of files can do.** A source text has a program, a syntax error, or a literal
without a value that is read. So has a file that is checked, and of the first kind it may define a
class that another file has. The command ends well or with a report, or it breaks off because one of
the files that its arguments stand for has a literal without a value: an escape sequence beyond all
code points, or an octal numeral of too many digits. How deep a text is nested makes no difference
here. -/
theorem ends_by_contents (path source : Text) :
    Program.ReadingEnd path source (Program.ofSource path source).result ∧
    (∀ (defineCalls : List Text) (fs : FileSystem) (bytes : List UInt8) (r : Registry),
      Registry.accepts path = true → fs.read path = .ok bytes →
        Registry.CheckingEnd path (contents bytes) (Registry.check defineCalls fs path r).result) ∧
    ∀ (s : Surroundings) (arguments : List Text) (threshold : Nat),
      Path.isAbsolute s.directory = true → s.files.WellNamed →
      threshold? s.settings.logLevel = some threshold → CommandEnd s arguments (run s arguments) := by
  refine ⟨Program.readingEnd path source,
    fun _ _ _ r hPath hRead => Registry.checkingEnd hPath hRead r, ?_⟩
  intro s arguments threshold hDirectory hfs hLevel
  unfold run
  split
  · rename_i e hRequest
    exact .misused e hRequest
  · exact .fine _ rfl
  · rename_i paths hPaths
    rw [hLevel]
    exact index_commandEnd hDirectory hfs threshold hPaths

/-- A file in which an escape sequence stands for more than the greatest code point, and one that
defines a class. -/
def beyond : Surroundings where
  files := { root := [("a.js", .file "\"\\u\x7b110000\x7d\";".toUTF8.toList),
    ("b.js", .file (Registry.definitions ["B"]))] }

/-- An escape sequence without a value ends the command at its file, after another file has been
indexed. -/
theorem ends_by_contents_of_beyond :
    (∃ bytes, beyond.files.read "/a.js" = .ok bytes ∧
      Registry.CheckingEnd "/a.js" (contents bytes)
        (Registry.check [] beyond.files "/a.js" {}).result) ∧
    CommandEnd beyond ["b.js", "a.js"] (run beyond ["b.js", "a.js"]) := by
  obtain ⟨-, hCheck, hCommand⟩ := ends_by_contents "/a.js" []
  exact ⟨⟨_, rfl, hCheck _ _ _ _ (by decide) rfl⟩,
    hCommand _ _ 30 (by decide) (by decide) (by decide)⟩

/-- The escape sequence is no syntax error and has no value. Reading fails, and so does the check;
the command breaks off and says nothing. -/
theorem breaks_off_of_beyond :
    (Program.ofSource [] "\"\\u\x7b110000\x7d\";").result = .error (.literal .beyondUnicode) ∧
    (Registry.check [] beyond.files "/a.js" {}).result =
      .error (.source (.literal .beyondUnicode)) ∧
    (run beyond ["b.js", "a.js"]).1.code = 1 ∧ (run beyond ["b.js", "a.js"]).1.diagnostics = [] ∧
    (run beyond ["b.js", "a.js"]).2 =
      some (.failure (.source (.literal .beyondUnicode))) := by
  refine ⟨?_, by decide +kernel⟩
  have hReading : ((Program.ofSource [] "\"\\u\x7b110000\x7d\";").result.map fun _ => ()) =
      .error (.literal .beyondUnicode) := by decide +kernel
  cases h : (Program.ofSource [] "\"\\u\x7b110000\x7d\";").result with
  | ok p => exact nomatch h ▸ hReading
  | error e => exact congrArg Except.error (Except.error.inj (h ▸ hReading))

end CommandLine

end ClassTags
