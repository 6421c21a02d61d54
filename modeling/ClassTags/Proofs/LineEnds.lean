import ClassTags.Proofs.Breakdown

/-!
# Line ends

The text of a file does not depend on how its lines end. Reading the bytes of a text as UTF-8 gives
the text back, whatever characters it has, and unifying the line ends gives one line feed for every
line end, so that files which differ only in their line ends are checked alike.

A character after its first byte is an **unfinished** one. The bytes that still have to come are the
last digits of its code point to the base 64, so the induction is on their number: the value that
has been read is the code point without these digits (`Text.decodeFrom_continuation`). The narrower
bounds of the second byte are met because a code point is neither written longer than need be nor a
surrogate.

Main definitions:

* `LineEnd.spell` — a text with another line end in place of the line feeds;
* `Registry.Placing` — what becomes of the classes of a file.

Main results:

* `Text.decode_encode` — reading gives back what was written;
* `LineEnd.unifyLineEnds_spell` — line ends are neither split nor merged;
* `Registry.check_lineEnds` — line ends do not matter to a check.
-/

namespace ClassTags

namespace Text

-- ---------------------------------------------------------------------------
-- Characters after their first byte
-- ---------------------------------------------------------------------------

/-- The last `k` digits of a code point to the base 64, as the bytes that continue a character. -/
def continuation : (k : Nat) → Nat → List UInt8
  | 0, _ => []
  | k + 1, n => UInt8.ofNat (0x80 + n / 64 ^ k % 64) :: continuation k n

/-- A byte within the bounds of an unfinished character goes into its value. -/
theorem decodeFrom_byte {u : Unfinished} {b : Nat} (hb : b < 256) (hLow : u.low ≤ b)
    (hHigh : b ≤ u.high) (bs : List UInt8) :
    decodeFrom (some u) (UInt8.ofNat b :: bs) =
      if u.remaining ≤ 1 then Char.ofNat (u.value * 64 + (b - 0x80)) :: decodeFrom none bs
      else decodeFrom (some ⟨u.value * 64 + (b - 0x80), u.remaining - 1, 0x80, 0xBF⟩) bs := by
  have hByte : (UInt8.ofNat b).toNat = b := UInt8.toNat_ofNat_of_lt hb
  rw [decodeFrom, hByte, if_pos ⟨hLow, hHigh⟩]

/-- The digits that are read make the value without the digits to come. -/
theorem div_pow_succ (n k : Nat) : n / 64 ^ (k + 1) * 64 + n / 64 ^ k % 64 = n / 64 ^ k := by
  rw [Nat.pow_succ, ← Nat.div_div_eq_div_mul]
  omega

/-- The bytes that continue a character complete it. -/
theorem decodeFrom_continuation {k n low high : Nat} (hLow : low ≤ 0x80 + n / 64 ^ k % 64)
    (hHigh : 0x80 + n / 64 ^ k % 64 ≤ high) (bs : List UInt8) :
    decodeFrom (some ⟨n / 64 ^ (k + 1), k + 1, low, high⟩) (continuation (k + 1) n ++ bs) =
      Char.ofNat n :: decodeFrom none bs := by
  induction k generalizing low high with
  | zero =>
    rw [continuation, List.cons_append, decodeFrom_byte (by omega) hLow hHigh, if_pos (Nat.le_refl 1),
      Nat.add_sub_cancel_left, div_pow_succ]
    simp [continuation]
  | succ k ih =>
    rw [continuation, List.cons_append, decodeFrom_byte (by omega) hLow hHigh,
      if_neg (by simp), Nat.add_sub_cancel_left, div_pow_succ]
    exact ih (by omega) (by omega)

-- ---------------------------------------------------------------------------
-- First bytes
-- ---------------------------------------------------------------------------

/-- A first byte leaves the digits of the code point before its last `k` ones, and bounds that the
next byte keeps. -/
def Begins (k n first : Nat) : Prop :=
  ∃ low high, beginChar first = ([], some ⟨n / 64 ^ (k + 1), k + 1, low, high⟩) ∧
    low ≤ 0x80 + n / 64 ^ k % 64 ∧ 0x80 + n / 64 ^ k % 64 ≤ high

theorem begins_two {n : Nat} (hLow : 0x80 ≤ n) (hHigh : n < 0x800) : Begins 0 n (0xC0 + n / 64) := by
  refine ⟨0x80, 0xBF, ?_, by omega, by omega⟩
  rw [beginChar, if_neg (by omega), if_pos (by omega), Nat.add_sub_cancel_left]
  rfl

theorem begins_three {n : Nat} (hLow : 0x800 ≤ n) (hHigh : n < 0x10000)
    (hScalar : n < 0xD800 ∨ 0xDFFF < n) : Begins 1 n (0xE0 + n / 4096) := by
  have hDigit : n / 64 ^ 1 % 64 = n / 64 % 64 := by rw [Nat.pow_one]
  have hValue : n / 64 ^ (1 + 1) = n / 4096 := rfl
  unfold Begins
  rw [hDigit, hValue, beginChar, if_neg (by omega), if_neg (by omega)]
  by_cases hFirst : n / 4096 = 0
  · -- shorter forms are ruled out by the least second byte
    rw [if_pos (by omega), hFirst]
    exact ⟨0xA0, 0xBF, rfl, by omega, by omega⟩
  · by_cases hSurrogates : n / 4096 = 0xD
    · -- and surrogates by the greatest one
      rw [if_neg (by omega), if_pos (by omega), hSurrogates]
      exact ⟨0x80, 0x9F, rfl, by omega, by omega⟩
    · rw [if_neg (by omega), if_neg (by omega), if_pos (by omega), Nat.add_sub_cancel_left]
      exact ⟨0x80, 0xBF, rfl, by omega, by omega⟩

theorem begins_four {n : Nat} (hLow : 0x10000 ≤ n) (hHigh : n < 0x110000) :
    Begins 2 n (0xF0 + n / 262144) := by
  have hDigit : n / 64 ^ 2 % 64 = n / 4096 % 64 := rfl
  have hValue : n / 64 ^ (2 + 1) = n / 262144 := rfl
  unfold Begins
  rw [hDigit, hValue, beginChar, if_neg (by omega), if_neg (by omega), if_neg (by omega),
    if_neg (by omega), if_neg (by omega)]
  by_cases hFirst : n / 262144 = 0
  · rw [if_pos (by omega), hFirst]
    exact ⟨0x90, 0xBF, rfl, by omega, by omega⟩
  · by_cases hLast : n / 262144 = 4
    · rw [if_neg (by omega), if_pos (by omega), hLast]
      exact ⟨0x80, 0x8F, rfl, by omega, by omega⟩
    · rw [if_neg (by omega), if_neg (by omega), if_pos (by omega), Nat.add_sub_cancel_left]
      exact ⟨0x80, 0xBF, rfl, by omega, by omega⟩

/-- A first byte and the bytes that continue it make the character. -/
theorem Begins.decodeFrom {k n first : Nat} (h : Begins k n first) (hFirst : first < 256)
    (bs : List UInt8) :
    decodeFrom none (UInt8.ofNat first :: (continuation (k + 1) n ++ bs)) =
      Char.ofNat n :: decodeFrom none bs := by
  obtain ⟨low, high, hBegin, hLow, hHigh⟩ := h
  have hByte : (UInt8.ofNat first).toNat = first := UInt8.toNat_ofNat_of_lt hFirst
  rw [Text.decodeFrom, hByte, hBegin]
  exact decodeFrom_continuation hLow hHigh bs

/-- **An encoded character is decoded as itself**, by the number of its bytes. -/
theorem decodeFrom_encodeChar (c : Char) (bs : List UInt8) :
    decodeFrom none (encodeChar c ++ bs) = c :: decodeFrom none bs := by
  have hScalar : c.toNat < 0xD800 ∨ 0xDFFF < c.toNat ∧ c.toNat < 0x110000 := c.valid
  conv_rhs => rw [← Char.ofNat_toNat c]
  unfold encodeChar
  generalize c.toNat = n at hScalar ⊢
  dsimp only
  split_ifs with hOne hTwo hThree
  · have hByte : (UInt8.ofNat n).toNat = n := UInt8.toNat_ofNat_of_lt (Nat.lt_trans hOne (by decide))
    rw [List.singleton_append, decodeFrom, hByte, beginChar, if_pos hOne]
    rfl
  · have hBegins : Begins 0 n (0xC0 + n / 64) := begins_two (by omega) hTwo
    simpa [continuation] using hBegins.decodeFrom (by omega) bs
  · have hBegins : Begins 1 n (0xE0 + n / 4096) := begins_three (by omega) hThree (by omega)
    simpa [continuation] using hBegins.decodeFrom (by omega) bs
  · have hBegins : Begins 2 n (0xF0 + n / 262144) := begins_four (by omega) (by omega)
    simpa [continuation] using hBegins.decodeFrom (by omega) bs

/-- **Reading gives back what was written**, whatever characters the text has. -/
theorem decode_encode (t : Text) : decode (encode t) = t := by
  unfold decode encode
  induction t with
  | nil => rfl
  | cons c cs ih => rw [List.flatMap_cons, decodeFrom_encodeChar, ih]

/-- Characters are encoded as strings encode them. -/
theorem encodeChar_eq_utf8 (c : Char) : encodeChar c = String.utf8EncodeChar c := by
  have hScalar : c.val.toNat < 0xD800 ∨ 0xDFFF < c.val.toNat ∧ c.val.toNat < 0x110000 := c.valid
  unfold encodeChar String.utf8EncodeChar Char.toNat
  generalize c.val.toNat = n at hScalar ⊢
  simp only [← Nat.lt_add_one_iff, Nat.reduceAdd]
  split_ifs with hOne hTwo hThree
  · rfl
  · have hFirst : n / 64 % 32 = n / 64 := by omega
    rw [hFirst, Nat.add_comm 0xC0, Nat.add_comm 0x80]
  · have hFirst : n / 4096 % 16 = n / 4096 := by omega
    rw [hFirst, Nat.add_comm 0xE0, Nat.add_comm 0x80, Nat.add_comm 0x80]
  · have hFirst : n / 262144 % 8 = n / 262144 := by omega
    rw [hFirst, Nat.add_comm 0xF0, Nat.add_comm 0x80, Nat.add_comm 0x80, Nat.add_comm 0x80]

/-- What is written is UTF-8. -/
theorem encode_eq_utf8 (t : Text) : encode t = t.flatMap String.utf8EncodeChar :=
  List.flatMap_congr fun c _ => encodeChar_eq_utf8 c

end Text

/-- How the lines of a text may end. -/
inductive LineEnd where
  | lineFeed
  | carriageReturn
  /-- A carriage return and a line feed. -/
  | both
deriving DecidableEq, Repr

namespace LineEnd

/-- The characters of a line end. -/
def text : LineEnd → Text
  | lineFeed => "\n"
  | carriageReturn => "\r"
  | both => "\r\n"

/-- The text with this line end in place of every line feed. -/
def spell (e : LineEnd) (t : Text) : Text := t.flatMap fun c => if c = '\n' then e.text else [c]

/-- Line breaks are spelled one by one, all else stays. -/
theorem spell_cons (e : LineEnd) (c : Char) (cs : Text) :
    e.spell (c :: cs) = (if c = '\n' then e.text else [c]) ++ e.spell cs := List.flatMap_cons

/-- Where only carriage returns end lines, there are no line feeds. -/
theorem newline_not_mem_spell (t : Text) : '\n' ∉ carriageReturn.spell t := by
  intro h
  obtain ⟨c, -, hc⟩ := List.mem_flatMap.mp h
  split at hc
  · exact absurd hc (by decide)
  · rename_i hNot
    exact hNot (List.mem_singleton.mp hc).symm

/-- A character other than a carriage return stays. -/
theorem unifyLineEnds_cons {c : Char} (hc : c ≠ '\r') (cs : Text) :
    Text.unifyLineEnds (c :: cs) = c :: Text.unifyLineEnds cs := by
  rw [Text.unifyLineEnds, if_neg hc]
  intro _ hReturn
  exact absurd hReturn hc

/-- A carriage return becomes a line feed, unless there is one after it. -/
theorem unifyLineEnds_return {cs : Text} (hcs : cs.head? ≠ some '\n') :
    Text.unifyLineEnds ('\r' :: cs) = '\n' :: Text.unifyLineEnds cs := by
  rw [Text.unifyLineEnds, if_pos rfl]
  rintro rest - rfl
  exact hcs rfl

/-- **Line ends are neither split nor merged.** -/
theorem unifyLineEnds_spell (e : LineEnd) {t : Text} (ht : '\r' ∉ t) :
    Text.unifyLineEnds (e.spell t) = t := by
  induction t with
  | nil => rfl
  | cons c cs ih =>
    rw [List.mem_cons, not_or] at ht
    rw [spell_cons]
    by_cases hc : c = '\n'
    · subst hc
      rw [if_pos rfl]
      cases e with
      | lineFeed => exact (unifyLineEnds_cons (by decide) _).trans (congrArg _ (ih ht.2))
      | both => exact congrArg _ (ih ht.2)
      | carriageReturn =>
        refine (unifyLineEnds_return ?_).trans (congrArg _ (ih ht.2))
        intro hHead
        exact newline_not_mem_spell cs (List.mem_of_mem_head? hHead)
    · rw [if_neg hc]
      exact (unifyLineEnds_cons (Ne.symm ht.1) _).trans (congrArg _ (ih ht.2))

end LineEnd

namespace Registry

-- ---------------------------------------------------------------------------
-- Files with one text
-- ---------------------------------------------------------------------------

/-- What becomes of the classes of a file in a registry without the file: all of them are placed, or
those before the first one whose name is taken. -/
inductive Placing (path : Text) (r : Registry) :
    List ClassRecord → Registry → Except IndexFailure Bool → Prop
  | all (cs : List ClassRecord) (hFree : ∀ c ∈ cs, r.record? c.name = none) :
    Placing path r cs (r.appendFile path cs) (.ok true)
  | upTo (before : List ClassRecord) (c : ClassRecord) (after : List ClassRecord)
      (previous : ClassRecord) (hFree : ∀ d ∈ before, r.record? d.name = none)
      (hTaken : r.record? c.name = some previous) :
    Placing path r (before ++ c :: after) (r.appendFile path before)
      (.error (.duplicate c.name previous.path path))

/-- What a check of a file with the given text answers and leaves. -/
structure TextOutcome (defineCalls : List Text) (path t : Text) (s : Registry)
    (o : Outcome Registry IndexFailure Bool) : Prop where
  /-- A text without a program fails as it does by itself, and the file is dropped. -/
  unread : ∀ cause, (Program.ofSource path t).result = .error cause →
    o.result = .error (.source cause) ∧ o.state = s.retract path
  /-- The classes of its program are placed. -/
  placed : ∀ p, (Program.ofSource path t).result = .ok p →
    Placing path (s.retract path) (p.classes defineCalls path) o.state o.result

/-- Files with one text are checked alike. -/
theorem check_eq_of_contents_eq (defineCalls : List Text) {fs fs' : FileSystem} {path : Text}
    {bytes bytes' : List UInt8} (hRead : fs.read path = .ok bytes)
    (hRead' : fs'.read path = .ok bytes') (h : contents bytes = contents bytes') :
    check defineCalls fs path = check defineCalls fs' path := by
  unfold contents at h
  unfold check
  rw [hRead, hRead']
  simp only [h]

/-- A check retracts the file and places its classes. -/
theorem placing_check {s : Registry} (hs : Reached s) {defineCalls : List Text} {fs : FileSystem}
    {path : Text} (hPath : accepts path = true) {cs : List ClassRecord}
    (hFile : fileClasses defineCalls fs path = .ok (some cs)) :
    Placing path (s.retract path) cs (check defineCalls fs path s).state
      (check defineCalls fs path s).result := by
  obtain ⟨h, hSound, rfl⟩ := hs.held
  have hFree : ∀ c : ClassRecord, c.name ∉ Table.names (Holdings.classes (h.remove path)) →
      ((Holdings.registry h).retract path).record? c.name = none := by
    intro c hc
    rw [Holdings.registry_retract hSound]
    exact Holdings.record?_eq_none.mpr hc
  rcases Holdings.free_or_taken (h.remove path) cs with hAll | ⟨before, c, after, rfl, hBefore, hTaken⟩
  · have hAll' := fun c hc => hFree c (hAll c hc)
    obtain ⟨hResult, hState⟩ := check_of_free hSound hPath hFile hAll'
    rw [hResult, hState]
    exact .all cs hAll'
  · have hBefore' := fun d hd => hFree d (hBefore d hd)
    obtain ⟨previous, hPrevious⟩ : ∃ previous,
        ((Holdings.registry h).retract path).record? c.name = some previous := by
      rw [← Option.ne_none_iff_exists', Holdings.registry_retract hSound]
      exact fun hNone => Holdings.record?_eq_none.mp hNone hTaken
    obtain ⟨hResult, hState⟩ := check_of_taken hSound hPath hFile hBefore' hPrevious
    rw [hResult, hState]
    exact .upTo before c after previous hBefore' hPrevious

/-- **The outcome of a check depends on the text alone**, not on the bytes that spell it. -/
theorem textOutcome_check {s : Registry} (hs : Reached s) (defineCalls : List Text)
    {fs : FileSystem} {path : Text} (hPath : accepts path = true) {bytes : List UInt8}
    (hRead : fs.read path = .ok bytes) :
    TextOutcome defineCalls path (contents bytes) s (check defineCalls fs path s) where
  unread cause hCause := by
    have hSource : classesOfBytes defineCalls path bytes = .error cause :=
      classesOfSource_eq_error hCause
    have hFile : fileClasses defineCalls fs path = .error (.source cause) := by
      rw [fileClasses_of_bytes hRead, hSource]
    exact check_of_no_classes hPath hFile nofun s
  placed p hProgram := by
    have hSource : classesOfBytes defineCalls path bytes = .ok (p.classes defineCalls path) :=
      classesOfSource_eq_ok hProgram
    have hFile : fileClasses defineCalls fs path = .ok (some (p.classes defineCalls path)) := by
      rw [fileClasses_of_bytes hRead, hSource]
    exact placing_check hs hPath hFile

/-- **Line ends do not matter.** A text without carriage returns may be written to a file as it is,
with a carriage return for every line feed, or with both. In every registry that has been reached,
the check of the file has one outcome for all three: the answer or the failure with its line, the
notices, and what it leaves. It is the outcome that the text itself gives. -/
theorem check_lineEnds {t : Text} (ht : '\r' ∉ t) {s : Registry} (hs : Reached s)
    (defineCalls : List Text) (path : Text) {files : LineEnd → FileSystem}
    (hFiles : ∀ e, (files e).read path = .ok ((LineEnd.spell e t).flatMap String.utf8EncodeChar)) :
    (∀ e e', check defineCalls (files e) path s = check defineCalls (files e') path s) ∧
      ∀ e, Path.isAbsolute path = true → Path.normalize path = path →
        TextOutcome defineCalls path t s (check defineCalls (files e) path s) := by
  have hText : ∀ e : LineEnd, contents ((e.spell t).flatMap String.utf8EncodeChar) = t := by
    intro e
    rw [contents, ← Text.encode_eq_utf8, Text.decode_encode, e.unifyLineEnds_spell ht]
  constructor
  · intro e e'
    rw [check_eq_of_contents_eq defineCalls (hFiles e) (hFiles e') ((hText e).trans (hText e').symm)]
  · intro e hAbsolute hNormal
    have hOutcome := textOutcome_check hs defineCalls (accepts_iff.mpr ⟨hAbsolute, hNormal⟩) (hFiles e)
    rwa [hText e] at hOutcome

/-- A text with a byte order mark, with characters of two, three and four bytes, with two line ends
in a row and with a class on its third line. -/
def scroll : Text := "\uFEFF// é ∀ 🦉\n\nqx.Class.define(\"Owl\", \x7b\x7d);\n"

/-- A file with this text and the given line ends. -/
def scrollFile (e : LineEnd) : FileSystem where
  root := [("owl.js", .file ((e.spell scroll).flatMap String.utf8EncodeChar))]

/-- However its lines end, the file has the outcome of the text: one class, on the third line. -/
theorem check_lineEnds_of_scroll :
    '\r' ∉ scroll ∧ ∀ e,
      TextOutcome defaultDefineCalls "/owl.js" scroll {}
          (check defaultDefineCalls (scrollFile e) "/owl.js" {}) ∧
        (check defaultDefineCalls (scrollFile e) "/owl.js" {}).result = .ok true ∧
        ((check defaultDefineCalls (scrollFile e) "/owl.js" {}).state.record? "Owl").map
          ClassRecord.line = some 3 := by
  have hText : '\r' ∉ scroll := by decide
  have hFiles : ∀ e, (scrollFile e).read "/owl.js" =
      .ok ((LineEnd.spell e scroll).flatMap String.utf8EncodeChar) := by
    rintro (_ | _ | _) <;> rfl
  obtain ⟨hAlike, hOutcome⟩ := check_lineEnds hText .empty defaultDefineCalls "/owl.js" hFiles
  refine ⟨hText, fun e => ⟨hOutcome e (by decide) (by decide), ?_⟩⟩
  rw [hAlike e .lineFeed]
  decide +kernel

end Registry

end ClassTags
