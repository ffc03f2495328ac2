import Mathlib.Data.List.Basic
import Montage.Graph.Text
import Montage.Proofs.Outcome

/-!
# The options of the engine

Every word of a program's arguments belongs to an option with one value, except for the name of the
output, which comes last. `Program.arguments_eq` gives the options of any program whose numbers can be
written (`Program.hasText`), and `optionsOf` reads them back from the words.
-/

namespace Montage.Graph

open Outcome

/-- Flags with their values, as words. -/
def wordsOf (options : List (String × String)) : List String :=
  options.flatMap fun option => [option.1, option.2]

/-- The flags with their values, of words that end with the name of the output. -/
def optionsOf : List String → List (String × String)
  | flag :: value :: rest => (flag, value) :: optionsOf rest
  | _ => []

/-- The values that a flag is given in some options. -/
def valuesIn (flag : String) (options : List (String × String)) : List String :=
  (options.filter (·.1 = flag)).map (·.2)

/-- The values that a flag is given in the arguments of the engine. -/
def valuesOf (flag : String) (words : List String) : List String :=
  valuesIn flag (optionsOf words)

@[simp]
theorem valuesIn_append (flag : String) (xs ys : List (String × String)) :
    valuesIn flag (xs ++ ys) = valuesIn flag xs ++ valuesIn flag ys := by
  simp [valuesIn]

theorem valuesIn_eq_nil {flag : String} {options : List (String × String)}
    (h : ∀ option ∈ options, option.1 ≠ flag) : valuesIn flag options = [] := by
  simpa [valuesIn] using h

@[simp]
theorem wordsOf_append (xs ys : List (String × String)) :
    wordsOf (xs ++ ys) = wordsOf xs ++ wordsOf ys := by
  simp [wordsOf]

theorem optionsOf_wordsOf (options : List (String × String)) (output : String) :
    optionsOf (wordsOf options ++ [output]) = options := by
  induction options with
  | nil => rfl
  | cons option options ih =>
    rw [show wordsOf (option :: options) = option.1 :: option.2 :: wordsOf options from rfl,
      List.cons_append, List.cons_append, optionsOf, ih]

/-- The options that name an input. -/
def InputSpec.options (i : InputSpec Binary64) : List (String × String) :=
  (i.demuxer.toList.flatMap fun name => [("-f", name), ("-safe", "0")]) ++
    (i.loopDuration.toList.flatMap fun d => [("-loop", "1"), ("-t", Timecode.graphText d)]) ++
    [("-i", i.name)]

theorem InputSpec.arguments_eq (i : InputSpec Binary64) :
    i.arguments = .ok (wordsOf i.options) := by
  obtain ⟨index, name, source, isImage, loopDuration, demuxer, clipId⟩ := i
  cases loopDuration <;> cases demuxer <;> rfl

theorem mapM_inputArguments (inputs : List (InputSpec Binary64)) :
    inputs.mapM (·.arguments) = .ok (inputs.map fun i => wordsOf i.options) :=
  mapM_eq_ok.2 (List.forall₂_map_right_iff.2 (List.forall₂_same.2 fun i _ => i.arguments_eq))

/-- The options that say what is mapped to the output. -/
def Encode.mapOptions (e : Encode Binary64) : List (String × String) :=
  (e.picture.toList ++ e.sound.toList).map fun label => ("-map", label.pad)

/-- The options that say how the output is encoded. -/
def Encode.codecOptions (e : Encode Binary64) : List (String × String) :=
  if e.streamCopy then [("-c", "copy")]
  else
    [("-c:v", e.videoCodec)] ++ (e.sound.toList.map fun _ => ("-c:a", e.audioCodec)) ++
      (e.preset.toList.map fun preset => ("-preset", preset)) ++
      (e.crf.toList.map fun crf => ("-crf", toString crf)) ++
      (e.pixelFormat.toList.map fun format => ("-pix_fmt", format))

def Encode.options (e : Encode Binary64) : List (String × String) :=
  e.mapOptions ++ e.codecOptions ++
    (e.duration.toList.map fun d => ("-t", Timecode.graphText d))

theorem Encode.codecArguments_eq (e : Encode Binary64) :
    e.codecArguments = wordsOf e.codecOptions := by
  obtain ⟨_, _, sound, _, _, preset, crf, pixelFormat, _, streamCopy⟩ := e
  cases streamCopy <;> cases sound <;> cases preset <;> cases crf <;> cases pixelFormat <;> rfl

theorem Encode.arguments_eq (e : Encode Binary64) :
    e.arguments = .ok (wordsOf e.options ++ [e.outputName]) := by
  have hmap : mapArguments e.picture ++ mapArguments e.sound = wordsOf e.mapOptions := by
    cases hpicture : e.picture <;> cases hsound : e.sound <;>
      simp [mapArguments, mapOptions, wordsOf, hpicture, hsound]
  cases hduration : e.duration with
  | none =>
    simp only [Encode.arguments, hduration, codecArguments_eq, hmap, options, wordsOf_append]
    rfl
  | some d =>
    simp only [Encode.arguments, hduration, codecArguments_eq, hmap, options, wordsOf_append]
    rfl

/-! ### Numbers that can be written -/

/-- The whole numbers that a filter is printed with. -/
def Filter.numbers : Filter Binary64 → List Int
  | color _ w h _ => [w, h]
  | scale w h => [w, h]
  | delay ms => [ms]
  | overlay _ x y => [x, y]
  | drawText d => [d.anchorX, d.anchorY, d.fontSize]
  | mix n => [n]
  | _ => []

/-- Whether no number of a filter has too many digits. -/
def Filter.hasText (f : Filter Binary64) : Bool := f.numbers.all fun n => (Value.int n).hasText

def Statement.hasText (s : Statement Binary64) : Bool := s.filters.all (·.hasText)

def Program.hasText (p : Program Binary64) : Bool := p.statements.all (·.hasText)

/-- A number has a text when a larger one has. -/
theorem hasText_of_le {m n : Nat} (h : (Value.int n).hasText = true) (hle : m ≤ n) :
    (Value.int m).hasText = true := by
  rw [Value.hasText, decide_eq_true_iff, Int.natAbs_natCast] at h ⊢
  exact Nat.lt_of_le_of_lt hle h

theorem Filter.resolve_eq {f : Filter Binary64} (hgate : ∀ w, f ≠ .gate w) :
    f.resolve = if f.hasText then .ok (f.map Timecode.graphText) else .error (.misuse .value) := by
  cases f with
  | gate w => exact absurd rfl (hgate w)
  | color name w h d =>
    cases hw : (Value.int w).hasText <;> cases hh : (Value.int h).hasText <;>
      simp only [resolve, writable, hasText, numbers, List.all_cons, hw, hh] <;> rfl
  | scale w h =>
    cases hw : (Value.int w).hasText <;> cases hh : (Value.int h).hasText <;>
      simp only [resolve, writable, hasText, numbers, List.all_cons, hw, hh] <;> rfl
  | overlay w x y =>
    cases hx : (Value.int x).hasText <;> cases hy : (Value.int y).hasText <;>
      simp only [resolve, writable, hasText, numbers, List.all_cons, hx, hy] <;> rfl
  | drawText d =>
    cases hx : (Value.int d.anchorX).hasText <;> cases hy : (Value.int d.anchorY).hasText <;>
      cases hsize : (Value.int d.fontSize).hasText <;>
      simp only [resolve, DrawText.resolve, writable, hasText, numbers, List.all_cons, hx, hy, hsize] <;> rfl
  | delay ms =>
    cases hms : (Value.int ms).hasText <;>
      simp only [resolve, writable, hasText, numbers, List.all_cons, hms] <;> rfl
  | mix n =>
    cases hn : (Value.int n).hasText <;>
      simp only [resolve, writable, hasText, numbers, List.all_cons, hn] <;> rfl
  | _ => rfl

/-- A statement can be printed unless a window stands in it as a filter, or a number is too long. -/
theorem Statement.resolve_eq {s : Statement Binary64}
    (hgate : ∀ f ∈ s.filters, ∀ w, f ≠ .gate w) :
    s.resolve = if s.hasText then .ok (s.map Timecode.graphText) else .error (.misuse .value) := by
  have hfilters := mapM_eq_ite fun f hf => Filter.resolve_eq (hgate f hf)
  rw [Statement.resolve, hfilters, Statement.hasText]
  cases s.filters.all (·.hasText) <;> rfl

theorem Program.resolveStatements_eq {p : Program Binary64}
    (hgate : ∀ s ∈ p.statements, ∀ f ∈ s.filters, ∀ w, f ≠ .gate w) :
    p.resolveStatements = if p.hasText then .ok (p.statements.map (·.map Timecode.graphText))
      else .error (.misuse .value) :=
  mapM_eq_ite fun s hs => Statement.resolve_eq (hgate s hs)

/-! ### The words -/

theorem Program.arguments_eq {p : Program Binary64} {e : Encode Binary64}
    (hencode : p.encode = some e)
    (hgate : ∀ s ∈ p.statements, ∀ f ∈ s.filters, ∀ w, f ≠ .gate w) (htext : p.hasText = true) :
    p.arguments = .ok (wordsOf (p.inputs.flatMap (·.options) ++
      (if p.statements.isEmpty then []
        else [("-filter_complex", graphText (p.statements.map (·.map Timecode.graphText)))]) ++
      e.options) ++ [e.outputName]) := by
  have hstatements : p.resolveStatements = .ok (p.statements.map (·.map Timecode.graphText)) := by
    rw [Program.resolveStatements_eq hgate, if_pos htext]
  have hwords : (p.inputs.map fun i => wordsOf i.options).flatten =
      wordsOf (p.inputs.flatMap (·.options)) := by
    rw [← List.flatMap_def, wordsOf, List.flatMap_assoc]
    rfl
  simp only [Program.arguments, hencode, mapM_inputArguments, hstatements, e.arguments_eq]
  refine congrArg Except.ok ?_
  simp only [hwords, wordsOf_append, List.isEmpty_map, ← List.append_assoc]
  congr 3
  split <;> rfl

/-- Without a text for its numbers, a program has no words for the engine. -/
theorem Program.arguments_of_no_text {p : Program Binary64}
    (hgate : ∀ s ∈ p.statements, ∀ f ∈ s.filters, ∀ w, f ≠ .gate w) (htext : p.hasText = false)
    (hencode : p.encode ≠ none) : p.arguments = .error (.misuse .value) := by
  obtain ⟨e, hencode⟩ := Option.ne_none_iff_exists'.1 hencode
  have hstatements : p.resolveStatements = .error (.misuse .value) := by
    rw [Program.resolveStatements_eq hgate, htext]
    rfl
  simp only [Program.arguments, hencode, mapM_inputArguments, hstatements]
  rfl

/-- The engine can be given words just when all numbers can be written. -/
theorem Program.isOk_arguments {p : Program Binary64} {e : Encode Binary64}
    (hencode : p.encode = some e)
    (hgate : ∀ s ∈ p.statements, ∀ f ∈ s.filters, ∀ w, f ≠ .gate w) :
    p.arguments.isOk = p.hasText := by
  cases htext : p.hasText with
  | true => rw [Program.arguments_eq hencode hgate htext]; rfl
  | false => rw [Program.arguments_of_no_text hgate htext (by simp [hencode])]; rfl

/-- The flags that stand before the output. -/
def inputFlags : List String := ["-f", "-safe", "-loop", "-t", "-i", "-filter_complex"]

theorem InputSpec.flag_mem (i : InputSpec Binary64) :
    ∀ option ∈ i.options, option.1 ∈ inputFlags := by
  obtain ⟨index, name, source, isImage, loopDuration, demuxer, clipId⟩ := i
  cases loopDuration <;> cases demuxer <;> simp [InputSpec.options, inputFlags]

/-- A flag has these values in the words of the last step, and with them in those of the whole program,
which it has when its numbers can be written. -/
structure Program.Gives (p : Program Binary64) (flag : String) (values : List String) : Prop where
  encoded : ∃ e words, p.encode = some e ∧ e.arguments = .ok words ∧ valuesOf flag words = values
  printed : p.hasText = true → ∃ words, p.arguments = .ok words ∧ valuesOf flag words = values

/-- The flags of the output have the values that the last step gives them. -/
theorem Program.gives_of_encode {p : Program Binary64} {e : Encode Binary64}
    (hencode : p.encode = some e)
    (hgate : ∀ s ∈ p.statements, ∀ f ∈ s.filters, ∀ w, f ≠ .gate w) {flag : String}
    (hflag : flag ∉ inputFlags) : p.Gives flag (valuesIn flag e.options) := by
  refine ⟨⟨e, _, hencode, e.arguments_eq, by rw [valuesOf, optionsOf_wordsOf]⟩, fun htext => ?_⟩
  refine ⟨_, Program.arguments_eq hencode hgate htext, ?_⟩
  rw [valuesOf, optionsOf_wordsOf, valuesIn_append, valuesIn_append]
  have hinputs : valuesIn flag (p.inputs.flatMap (·.options)) = [] := by
    refine valuesIn_eq_nil fun option hoption heq => hflag ?_
    obtain ⟨i, -, hoption⟩ := List.mem_flatMap.1 hoption
    exact heq ▸ i.flag_mem option hoption
  rw [hinputs, List.nil_append, valuesIn_eq_nil, List.nil_append]
  intro option hoption heq
  apply hflag
  split at hoption
  · cases hoption
  · obtain rfl := List.mem_singleton.1 hoption
    rw [← heq]
    simp [inputFlags]

theorem Encode.flag_mem (e : Encode Binary64) :
    ∀ option ∈ e.codecOptions,
      option.1 ∈ ["-c", "-c:v", "-c:a", "-preset", "-crf", "-pix_fmt"] := by
  obtain ⟨_, _, sound, _, _, preset, crf, pixelFormat, _, streamCopy⟩ := e
  cases streamCopy <;> cases sound <;> cases preset <;> cases crf <;> cases pixelFormat <;>
    simp [Encode.codecOptions]

theorem Encode.valuesIn_map (e : Encode Binary64) :
    valuesIn "-map" e.options = (e.picture.toList ++ e.sound.toList).map (·.pad) := by
  have hcodec : valuesIn "-map" e.codecOptions = [] :=
    valuesIn_eq_nil fun option hoption heq => by simpa [heq] using e.flag_mem option hoption
  have hduration :
      valuesIn "-map" (e.duration.toList.map fun d => ("-t", Timecode.graphText d)) = [] :=
    valuesIn_eq_nil fun option hoption heq => by
      obtain ⟨d, -, rfl⟩ := List.mem_map.1 hoption
      simp at heq
  rw [Encode.options, valuesIn_append, valuesIn_append, hcodec, hduration, Encode.mapOptions]
  simp [valuesIn, List.filter_map, Function.comp_def]

theorem Encode.valuesIn_audioCodec (e : Encode Binary64) (hcopy : e.streamCopy = false) :
    valuesIn "-c:a" e.options = e.sound.toList.map fun _ => e.audioCodec := by
  obtain ⟨_, picture, sound, _, _, preset, crf, pixelFormat, duration, streamCopy⟩ := e
  obtain rfl : streamCopy = false := hcopy
  cases picture <;> cases sound <;> cases preset <;> cases crf <;> cases pixelFormat <;>
    cases duration <;> rfl

theorem InputSpec.valuesIn_name (i : InputSpec Binary64) : valuesIn "-i" i.options = [i.name] := by
  obtain ⟨index, name, source, isImage, loopDuration, demuxer, clipId⟩ := i
  cases loopDuration <;> cases demuxer <;> rfl

theorem InputSpec.valuesIn_graph (i : InputSpec Binary64) :
    valuesIn "-filter_complex" i.options = [] := by
  obtain ⟨index, name, source, isImage, loopDuration, demuxer, clipId⟩ := i
  cases loopDuration <;> cases demuxer <;> rfl

theorem Encode.valuesIn_eq_nil (e : Encode Binary64) {flag : String}
    (hflag : flag ∉ ["-map", "-c", "-c:v", "-c:a", "-preset", "-crf", "-pix_fmt", "-t"]) :
    valuesIn flag e.options = [] := by
  refine Graph.valuesIn_eq_nil fun option hoption heq => hflag ?_
  rw [Encode.options, List.mem_append, List.mem_append] at hoption
  rw [← heq]
  rcases hoption with (hmap | hcodec) | hduration
  · obtain ⟨label, -, rfl⟩ := List.mem_map.1 hmap
    simp
  · have hmem := e.flag_mem option hcodec
    simp only [List.mem_cons, List.not_mem_nil, or_false] at hmem ⊢
    tauto
  · obtain ⟨d, -, rfl⟩ := List.mem_map.1 hduration
    simp

/-- The arguments name every input, and have the statements in one word. -/
theorem Program.valuesOf_inputs {p : Program Binary64} {e : Encode Binary64}
    (hencode : p.encode = some e) (hsome : p.statements ≠ [])
    (hgate : ∀ s ∈ p.statements, ∀ f ∈ s.filters, ∀ w, f ≠ .gate w) (htext : p.hasText = true) :
    ∃ words, p.arguments = .ok words ∧ valuesOf "-i" words = p.inputs.map (·.name) ∧
      valuesOf "-filter_complex" words =
        [graphText (p.statements.map (·.map Timecode.graphText))] := by
  refine ⟨_, Program.arguments_eq hencode hgate htext, ?_, ?_⟩
  · have hinputs : valuesIn "-i" (p.inputs.flatMap (·.options)) = p.inputs.map (·.name) := by
      induction p.inputs with
      | nil => rfl
      | cons i inputs ih => rw [List.flatMap_cons, valuesIn_append, i.valuesIn_name, ih]; rfl
    rw [valuesOf, optionsOf_wordsOf, valuesIn_append, valuesIn_append, hinputs,
      e.valuesIn_eq_nil (by decide), List.append_nil]
    split
    · exact List.append_nil _
    · exact List.append_nil _
  · have hinputs : valuesIn "-filter_complex" (p.inputs.flatMap (·.options)) = [] := by
      induction p.inputs with
      | nil => rfl
      | cons i inputs ih => rw [List.flatMap_cons, valuesIn_append, i.valuesIn_graph, ih]; rfl
    rw [valuesOf, optionsOf_wordsOf, valuesIn_append, valuesIn_append, hinputs,
      e.valuesIn_eq_nil (by decide), List.append_nil, List.nil_append,
      if_neg (by simpa using hsome)]
    rfl

end Montage.Graph
