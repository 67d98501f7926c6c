import Notebook.Command.Perform
import Notebook.Proofs.Execution.Alone
import Notebook.Proofs.Json.Reads

/-!
Notebooks as JSON are read as they were written, whatever their cells hold, and what the command
that lists cells prints is such a notebook.
-/

namespace Notebook

open Json (Reader Value lineStart stringText)
open Json.Reader

namespace Cell

/-- The content of a cell as it is written. -/
def contentText (depth : Nat) : Cell → List Char
  | .markup t => stringText t
  | .code s => stringText s
  | .evaluated s o r =>
    '{' :: (separator true (lineStart (depth + 1)) ++ (stringText "source".toList ++ ':' ::
      ([' '] ++ (stringText s ++ (separator false (lineStart (depth + 1)) ++
      (stringText "output".toList ++ ':' :: ([' '] ++ (stringText o ++
      (separator false (lineStart (depth + 1)) ++ (stringText "compiler_message".toList ++ ':' ::
      ([' '] ++ (stringText r ++ (lineStart depth ++ ['}'])))))))))))))

theorem pretty_toValue (c : Cell) (depth : Nat) : c.toValue.pretty depth =
    '{' :: (separator true (lineStart (depth + 1)) ++ (stringText "kind".toList ++ ':' ::
      ([' '] ++ (stringText c.kind.name.toList ++ (separator false (lineStart (depth + 1)) ++
      (stringText "cell".toList ++ ':' :: ([' '] ++ (c.contentText (depth + 1) ++
      (lineStart depth ++ ['}'])))))))))  := by
  cases c <;>
    simp [toValue, Value.pretty, Value.pretty.prettyFields, List.intercalate, contentText,
      separator]

theorem blank_space : Blank [' '] := by
  intro c hc
  rw [List.mem_singleton.1 hc]
  rfl

theorem opens_pretty (c : Cell) (depth : Nat) : Opens (c.toValue.pretty depth) :=
  ⟨'{', _, c.pretty_toValue depth, rfl, by decide⟩

/-- A field of an evaluated cell is found by its name. -/
theorem find_evaluatedForm : ∀ i : Fin 3,
    evaluatedForm.fields.find? (·.name.toList = evaluatedForm.fields[i].name.toList) =
      some evaluatedForm.fields[i]
  | 0 => rfl
  | 1 => rfl
  | 2 => rfl

/-- The content of a cell is read as one of its kind. -/
theorem reads_content (c : Cell) (depth : Nat) (t : List Char) :
    Reads (content c.kind) ([' '] ++ (c.contentText depth ++ t)) c t := by
  cases c with
  | markup m => exact (reads_string blank_space m t).bind (.pure _ _)
  | code s => exact (reads_string blank_space s t).bind (.pure _ _)
  | evaluated s o r =>
    have hb := blank_lineStart (depth + 1)
    have hend := repeats_fieldsEnd evaluatedForm.fields false
      (⟨some s, some o, some r⟩ : Draft) (blank_lineStart depth) t
    have hreport := repeats_field false (⟨some s, some o, none⟩ : Draft) hb
      (find_evaluatedForm 2) rfl ((reads_string blank_space r _).bind (.pure _ _))
      (by simp only [List.length_append]; omega) hend
    have houtput := repeats_field false (⟨some s, none, none⟩ : Draft) hb
      (find_evaluatedForm 1) rfl ((reads_string blank_space o _).bind (.pure _ _))
      (by simp only [List.length_append]; omega) hreport
    have hsource := repeats_field true (⟨none, none, none⟩ : Draft) hb
      (find_evaluatedForm 0) rfl ((reads_string blank_space s _).bind (.pure _ _))
      (by simp only [List.length_append]; omega) houtput
    have hform := reads_structured evaluatedForm (.evaluated s o r) blank_space hsource rfl
    simp only [contentText, List.cons_append, List.append_assoc, List.nil_append] at hform ⊢
    exact hform

/-! ### Cells -/

theorem kinds_lookup (k : Kind) : kinds.lookup k.name = some k := by cases k <;> rfl

theorem reads_nextKey (first : Bool) {b : List Char} (hb : Blank b) (k : Key) (t : List Char) :
    Reads (nextKey first) (separator first b ++ (stringText k.name.toList ++ t)) (some k) t := by
  refine Repeats.iterate (.done ?_)
  rw [Json.Reader.stringText_append]
  refine (reads_objectGoesOn hb _).bind ?_
  rw [if_pos rfl]
  refine reads_past ((reads_stringTail _ _).bind ?_)
  rw [String.ofList_toList]
  cases k with
  | kind => exact .pure _ _
  | cell => exact .pure _ _

theorem reads_lastKey {b : List Char} (hb : Blank b) (t : List Char) :
    Reads (nextKey false) (b ++ '}' :: t) none ('}' :: t) :=
  Repeats.iterate (.done ((reads_objectStops hb t).bind (.pure _ _)))

theorem reads_cell (c : Cell) (depth : Nat) (t : List Char) :
    Reads read (c.toValue.pretty depth ++ t) c t := by
  have hb := blank_lineStart (depth + 1)
  have hrest : Reads (ofObject.rest c) (lineStart depth ++ '}' :: t) c t :=
    (reads_lastKey (blank_lineStart depth) t).bind ((reads_objectEnd t).bind (.pure _ _))
  rw [pretty_toValue]
  simp only [List.cons_append, List.append_assoc, List.nil_append]
  refine reads_token' rfl (reads_past ((reads_nextKey true hb .kind _).bind ?_))
  refine (reads_colon _).bind ((reads_variant blank_space (kinds_lookup c.kind) _).bind ?_)
  refine (reads_nextKey false hb .cell _).bind ?_
  exact (reads_colon _).bind ((reads_content c (depth + 1) _).bind hrest)

end Cell

namespace Document

theorem prettyAll_eq (depth : Nat) (vs : List Value) :
    Value.pretty.prettyAll depth vs = vs.map (·.pretty depth) := by
  induction vs with
  | nil => rfl
  | cons v vs ih => rw [Value.pretty.prettyAll, ih, List.map_cons]

/-- The list of the cells as it is written. -/
theorem pretty_cells (cs : List Cell) (depth : Nat) : ∃ z, Blank z ∧
    (Value.list (cs.map Cell.toValue)).pretty depth =
      '[' :: (series (lineStart (depth + 1)) true (cs.map (·.toValue.pretty (depth + 1))) ++
        (z ++ [']'])) := by
  cases cs with
  | nil => exact ⟨[], by simp [Blank], rfl⟩
  | cons c cs =>
    refine ⟨lineStart depth, blank_lineStart depth, ?_⟩
    rw [List.map_cons, List.map_cons, ← series_eq, Value.pretty, prettyAll_eq]
    simp [Function.comp_def]

theorem pretty_field (k : List Char) (v : Value) (depth : Nat) :
    (Value.object [(k, v)]).pretty depth =
      '{' :: (separator true (lineStart (depth + 1)) ++ (stringText k ++ ':' ::
        ([' '] ++ (v.pretty (depth + 1) ++ (lineStart depth ++ ['}']))))) := by
  simp [Value.pretty, Value.pretty.prettyFields, List.intercalate, separator]

theorem reads_toJson (d : Document) (t : List Char) :
    Reads (structured form) (d.toJson ++ t) d t := by
  obtain ⟨z, hz, hcells⟩ := pretty_cells d.cells 1
  have hlist := reads_list Cell.read (·.toValue.pretty 2) Cell.blank_space
    (blank_lineStart 2) hz d.cells (fun c _ => c.opens_pretty 2) (fun c _ => Cell.reads_cell c 2)
    (lineStart 0 ++ '}' :: t)
  have hfield := repeats_field true none (blank_lineStart 1)
    (by rfl : form.fields.find? _ = some form.fields[0]) rfl
    (hlist.bind (.pure _ _)) (by simp only [List.length_append, List.length_cons]; omega)
    (repeats_fieldsEnd form.fields false (some d.cells) (blank_lineStart 0) t)
  rw [toJson, toValue, pretty_field, hcells]
  simp only [List.cons_append, List.append_assoc, List.nil_append] at hfield ⊢
  exact reads_structured form d (b := []) (by simp [Blank]) hfield rfl

/-- A notebook that was written as JSON is read, and blanks after it do not matter. -/
theorem ofJson_toJson (d : Document) {b : List Char} (hb : Blank b) :
    ofJson (d.toJson ++ b) = .ok d := run_of_reads (reads_toJson d b) hb

theorem decode_encode_json (d : Document) : Format.json.decode (Format.json.encode d) = .ok d := by
  have hb : Blank ['\n'] := by
    intro c hc
    rw [List.mem_singleton.1 hc]
    rfl
  rw [Format.decode, Format.encode, Text.Utf8.decode_encode]
  simp only [Format.read, Format.write, ofJson_toJson d hb]

end Document

namespace Command

/-- A notebook as JSON is read as the document that was written, and the command that lists the
cells of a notebook prints it so: what is printed is read as the notebook that was listed. -/
theorem json_lossless (d : Document) : Format.json.decode (Format.json.encode d) = .ok d ∧
    ∀ (w : World) (v : Invocation), v.task = .cells →
      Document.load w.tree w.here v.notebook = .ok d →
      ∃ r, perform w v = some r ∧ r.exit = 0 ∧ r.tree = w.tree ∧ r.printed.err = [] ∧
        Text.Utf8.encode r.printed.out = Format.json.encode d ∧
        Format.json.decode (Text.Utf8.encode r.printed.out) = .ok d := by
  refine ⟨d.decode_encode_json, fun w v hv hload => ?_⟩
  refine ⟨succeed w.tree (Printed.line d.toJson), ?_, rfl, rfl, rfl, rfl, d.decode_encode_json⟩
  simp only [perform, hv, cells, hload]

/-- A place with one notebook in it, whose text has characters of every class. -/
def desk : World where
  machine := .printer
  tree := (Files.Tree.empty.put [['d']] .directory).put [['d'], "n.md".toList]
    (.file (Text.Utf8.encode "\x01\"\\\t😀\n\n```rust\n\"\\\x7f\"\n```\n".toList) false)
  here := [['d']]
  temporary := ⟨"/tmp".toList⟩
  schedule := .fair .epoch
  elapsed := 0

def listing : Invocation := ⟨⟨"n.md".toList⟩, .cells, "cargo".toList, none, none, .evaluate⟩

theorem json_lossless_listing : ∃ d r,
    Document.load desk.tree desk.here listing.notebook = .ok d ∧
      d.cells.map Cell.kind = [.markup, .code] ∧ perform desk listing = some r ∧
      Format.json.decode (Text.Utf8.encode r.printed.out) = .ok d := by
  have hload : Document.load desk.tree desk.here listing.notebook =
      .ok ⟨[.markup "\x01\"\\\t😀".toList, .code "\"\\\x7f\"".toList]⟩ := by
    decide +kernel
  obtain ⟨r, hr, -, -, -, -, hread⟩ := (json_lossless _).2 desk listing rfl hload
  exact ⟨_, r, hload, rfl, hr, hread⟩

end Command

end Notebook
