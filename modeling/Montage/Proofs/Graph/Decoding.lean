import Montage.Graph.Text
import Montage.Graph.Token
import Montage.Proofs.Graph.LabelText

/-!
# Reading a graph back

`readGraph` reads the statements of a graph back from its text. It gives exactly the statements that
were printed when these are legible (`readGraph_graphText`): the texts that stand in them as they are
have only characters that end no field, the labels are no names from outside, and no window stands
alone.
-/

namespace Montage.Graph

/-- Whether a character may stand in a name, a colour or a time. All that ends one is another. -/
def isFieldChar (c : Char) : Bool := isStyleChar c || c = '\n'

def IsField (s : String) : Prop := ∀ c ∈ s.toList, isFieldChar c = true

def Window.fields (w : Window String) : List String := [w.start, w.finish]

/-- The texts that stand in a filter as they are. -/
def Filter.fields : Filter String → List String
  | color c _ _ d => [c, d]
  | trim _ start duration => [start, duration]
  | shift offset => [offset]
  | overlay w _ _ => w.fields
  | drawText d => d.textFile :: d.color :: d.fontFile.toList ++ d.window.fields
  | gate w => w.fields
  | scale .. | resetSound | delay _ | mix _ | passthrough => []

structure Filter.IsLegible (f : Filter String) : Prop where
  not_gate : ∀ w, f ≠ .gate w
  fields : ∀ s ∈ f.fields, IsField s

structure Statement.IsLegible (s : Statement String) : Prop where
  labels : ∀ l ∈ s.output :: s.inputs, l.isNamed = false
  filters_ne : s.filters ≠ []
  filters : ∀ f ∈ s.filters, f.IsLegible

/-! ### The readers -/

/-- What reads something from the front of a text, and leaves the rest. -/
abbrev Reader := StateT (List Char) Option

namespace Reader

def taken (allowed : Char → Bool) : Reader (List Char) :=
  fun cs => some (cs.takeWhile allowed, cs.dropWhile allowed)

/-- The letters at the front, which are left. -/
def name : Reader String := fun cs => some (.ofList (cs.takeWhile Char.isAlpha), cs)

def literal (s : String) : Reader Unit := fun cs => (cs.dropPrefix? s.toList).map ((), ·)

/-- One of two readers, by the first character. -/
def select {α : Type} (first : Char) (here elsewhere : Reader α) : Reader α :=
  fun cs => if cs.head? = some first then here.run cs else elsewhere.run cs

/-- As many items as there are with the same first character, up to a number. -/
def many {α : Type} (first : Char) (item : Reader α) : Nat → Reader (List α)
  | 0 => return []
  | fuel + 1 => select first (do return (← item) :: (← many first item fuel)) (return [])

/-- All items with the same first character; there are not more of them than characters. -/
def all {α : Type} (first : Char) (item : Reader α) : Reader (List α) :=
  fun cs => (many first item cs.length).run cs

def field : Reader String := do return .ofList (← taken isFieldChar)

def natural : Reader Nat := do return Label.readNumber (← taken Char.isDigit)

def negative : Reader Int := do
  literal "-"
  return -(← natural)

def integer : Reader Int := select '-' negative do return ← natural

def closedWindow : Reader (Window String) := do
  literal "between(t,"
  let start ← field
  literal ","
  let finish ← field
  literal ")"
  return ⟨start, finish, true⟩

def halfOpenWindow : Reader (Window String) := do
  literal "gte(t,"
  let start ← field
  literal ")*lt(t,"
  let finish ← field
  literal ")"
  return ⟨start, finish, false⟩

def window : Reader (Window String) := select 'b' closedWindow halfOpenWindow

def color : Reader (Filter String) := do
  literal "color=c="
  let c ← field
  literal ":size="
  let width ← integer
  literal "x"
  let height ← integer
  literal ":d="
  return .color c width height (← field)

def trim (audio : Bool) : Reader (Filter String) := do
  literal (if audio then "atrim=start=" else "trim=start=")
  let start ← field
  literal ":duration="
  return .trim audio start (← field)

def scale : Reader (Filter String) := do
  literal "scale="
  let width ← integer
  literal ":"
  return .scale width (← integer)

def shift : Reader (Filter String) := do
  literal "setpts=PTS-STARTPTS+"
  let offset ← field
  literal "/TB"
  return .shift offset

def resetSound : Reader (Filter String) := do
  literal "asetpts=PTS-STARTPTS"
  return .resetSound

def delay : Reader (Filter String) := do
  literal "adelay="
  let milliseconds ← integer
  literal ":all=1"
  return .delay milliseconds

def overlay : Reader (Filter String) := do
  literal "overlay="
  let x ← integer
  literal ":"
  let y ← integer
  literal ":enable='"
  let w ← window
  literal "'"
  return .overlay w x y

def fontFile : Reader (Option String) := do
  literal "fontfile="
  let file ← field
  literal ":"
  return some file

def drawText : Reader (Filter String) := do
  literal "drawtext="
  let fontFile ← select 'f' fontFile (return none)
  literal "textfile="
  let textFile ← field
  literal ":expansion=none:x=("
  let anchorX ← integer
  literal "-text_w/2):y=("
  let anchorY ← integer
  literal "-text_h/2):fontsize="
  let fontSize ← integer
  literal ":fontcolor="
  let color ← field
  literal ":enable='"
  let window ← window
  literal "'"
  return .drawText { textFile, fontFile, anchorX, anchorY, fontSize, color, window }

def mix : Reader (Filter String) := do
  literal "amix=inputs="
  let inputs ← integer
  literal ":normalize=0"
  return .mix inputs

def passthrough : Reader (Filter String) := do
  literal "null"
  return .passthrough

/-- The reader of the filters with a name. -/
def named : String → Reader (Filter String)
  | "color" => color
  | "trim" => trim false
  | "atrim" => trim true
  | "scale" => scale
  | "setpts" => shift
  | "asetpts" => resetSound
  | "adelay" => delay
  | "overlay" => overlay
  | "drawtext" => drawText
  | "amix" => mix
  | "null" => passthrough
  | _ => failure

def filter : Reader (Filter String) := do named (← name)

def nextFilter : Reader (Filter String) := do
  literal ","
  filter

def pad : Reader Label := do
  literal "["
  let text ← taken (· ≠ ']')
  literal "]"
  return Label.read text

def statement : Reader (Statement String) := do
  let inputs ← all '[' pad
  let first ← filter
  let more ← all ',' nextFilter
  return ⟨inputs, first :: more, ← pad⟩

def nextStatement : Reader (Statement String) := do
  literal "; "
  statement

def graph : Reader (List (Statement String)) := do return (← statement) :: (← all ';' nextStatement)

end Reader

/-- The statements of a graph, from a text that holds nothing else. -/
def readGraph (s : String) : Option (List (Statement String)) :=
  match Reader.graph.run s.toList with
  | some (statements, []) => some statements
  | _ => none

namespace Reader

variable {α β : Type} {rest : List Char}

/-! ### What they read

Each of these lemmas runs one reader on a text that begins with what it reads, and goes on with what
comes after it. -/

/-- A text whose first character, if it has one, is not of a class. -/
def Stops (allowed : Char → Bool) (rest : List Char) : Prop :=
  ∀ c ∈ rest.head?, allowed c = false

theorem stops_of_head {allowed : Char → Bool} {c : Char} (hhead : rest.head? = some c)
    (hc : allowed c = false) : Stops allowed rest := by
  intro d hd
  rw [hhead] at hd
  rwa [← Option.some.inj hd]

theorem Stops.imp {allowed other : Char → Bool} (h : Stops allowed rest)
    (himp : ∀ c, other c = true → allowed c = true) : Stops other rest := by
  intro c hc
  refine Bool.eq_false_iff.2 fun hother => ?_
  have hallowed := himp c hother
  rw [h c hc] at hallowed
  cases hallowed

theorem isFieldChar_of_isDigit {c : Char} (h : c.isDigit = true) : isFieldChar c = true := by
  simp [isFieldChar, isStyleChar, isLatinOrDigit, h]

theorem isFieldChar_of_isAlpha {c : Char} (h : c.isAlpha = true) : isFieldChar c = true := by
  simp [isFieldChar, isStyleChar, isLatinOrDigit, h]

theorem Stops.digit (h : Stops isFieldChar rest) : Stops Char.isDigit rest :=
  h.imp fun _ => isFieldChar_of_isDigit

theorem run_bind {p : Reader α} {f : α → Reader β} {cs : List Char} {x : α}
    (h : p.run cs = some (x, rest)) : (p >>= f).run cs = (f x).run rest := by
  rw [StateT.run_bind, h]
  rfl

theorem run_literal (s : String) (rest : List Char) :
    (literal s).run (s.toList ++ rest) = some ((), rest) := by
  have hdrop : (s.toList ++ rest).dropPrefix? s.toList = some rest :=
    List.dropPrefix?_eq_some_iff.2 ⟨s.toList, rfl, BEq.rfl⟩
  change ((s.toList ++ rest).dropPrefix? s.toList).map _ = _
  rw [hdrop]
  rfl

theorem takeWhile_append {allowed : Char → Bool} {cs : List Char}
    (hcs : ∀ c ∈ cs, allowed c = true) (hrest : Stops allowed rest) :
    (cs ++ rest).takeWhile allowed = cs := by
  rw [List.takeWhile_append_of_pos hcs]
  cases rest with
  | nil => exact List.append_nil cs
  | cons c rest =>
    have hc : allowed c = false := hrest c rfl
    simp [hc]

theorem dropWhile_append {allowed : Char → Bool} {cs : List Char}
    (hcs : ∀ c ∈ cs, allowed c = true) (hrest : Stops allowed rest) :
    (cs ++ rest).dropWhile allowed = rest := by
  rw [List.dropWhile_append_of_pos hcs]
  cases rest with
  | nil => rfl
  | cons c rest =>
    have hc : allowed c = false := hrest c rfl
    simp [hc]

theorem run_taken {allowed : Char → Bool} {cs : List Char} (hcs : ∀ c ∈ cs, allowed c = true)
    (hrest : Stops allowed rest) : (taken allowed).run (cs ++ rest) = some (cs, rest) := by
  change some ((cs ++ rest).takeWhile allowed, (cs ++ rest).dropWhile allowed) = _
  rw [takeWhile_append hcs hrest, dropWhile_append hcs hrest]

theorem run_field {s : String} (hs : IsField s) (hrest : Stops isFieldChar rest) :
    field.run (s.toList ++ rest) = some (s, rest) := by
  rw [field, run_bind (run_taken hs hrest), String.ofList_toList]
  rfl

theorem run_natural (n : Nat) (hrest : Stops Char.isDigit rest) :
    natural.run ((toString n).toList ++ rest) = some (n, rest) := by
  have hdigits : (toString n).toList = Nat.toDigits 10 n := by
    rw [Nat.toString_eq_ofList_toDigits, String.toList_ofList]
  rw [hdigits, natural, run_bind (run_taken (fun _ => Label.isDigit_of_mem_toDigits) hrest),
    Label.readNumber_toDigits]
  rfl

theorem run_select_pos {first : Char} {p q : Reader α} {cs : List Char}
    (h : cs.head? = some first) : (select first p q).run cs = p.run cs := if_pos h

theorem run_select_neg {first : Char} {p q : Reader α} {cs : List Char}
    (h : cs.head? ≠ some first) : (select first p q).run cs = q.run cs := if_neg h

theorem run_integer (n : Int) (hrest : Stops Char.isDigit rest) :
    integer.run ((toString n).toList ++ rest) = some (n, rest) := by
  cases n with
  | ofNat n =>
    have hminus : ((toString n).toList ++ rest).head? ≠ some '-' := by
      rw [Nat.toString_eq_ofList_toDigits, String.toList_ofList]
      intro hhead
      have hdigit := Label.head?_toDigits_append n rest
      rw [hhead] at hdigit
      cases hdigit
    exact (run_select_neg hminus).trans (run_bind (run_natural n hrest))
  | negSucc n =>
    have htext : (toString (Int.negSucc n)).toList ++ rest =
        "-".toList ++ ((toString (n + 1)).toList ++ rest) := by
      rw [← List.append_assoc, ← String.toList_append]
      rfl
    rw [htext]
    refine (run_select_pos rfl).trans ?_
    rw [negative, run_bind (run_literal "-" _), run_bind (run_natural (n + 1) hrest)]
    rfl

/-- Items follow each other up to what begins with another character. -/
theorem run_all {first : Char} {item : Reader α} {text : α → List Char} {xs : List α}
    (allowed : Char → Bool) (hfirst : ∀ x ∈ xs, (text x).head? = some first)
    (hitem : ∀ x ∈ xs, ∀ rest, Stops allowed rest → item.run (text x ++ rest) = some (x, rest))
    (hstop : allowed first = false) (hrest : Stops allowed rest)
    (hnext : rest.head? ≠ some first) :
    (all first item).run (xs.flatMap text ++ rest) = some (xs, rest) := by
  -- What is left of the text gets more fuel than it needs, so the induction allows for any that is enough.
  suffices hmany : ∀ fuel, (xs.flatMap text).length ≤ fuel →
      (many first item fuel).run (xs.flatMap text ++ rest) = some (xs, rest) by
    refine hmany _ ?_
    rw [List.length_append]
    exact Nat.le_add_right _ _
  induction xs with
  | nil =>
    intro fuel _
    cases fuel with
    | zero => rfl
    | succ fuel => exact run_select_neg hnext
  | cons x xs ih =>
    intro fuel hfuel
    obtain ⟨hx, hxs⟩ := List.forall_mem_cons.1 hfirst
    obtain ⟨hread, hreads⟩ := List.forall_mem_cons.1 hitem
    obtain ⟨tail, htail⟩ : ∃ tail, text x = first :: tail := List.head?_eq_some_iff.1 hx
    have hstops : Stops allowed (xs.flatMap text ++ rest) := by
      cases xs with
      | nil => exact hrest
      | cons y ys =>
        have hy := hxs y List.mem_cons_self
        refine stops_of_head (c := first) ?_ hstop
        rw [List.flatMap_cons, List.append_assoc, List.head?_append, hy]
        rfl
    cases fuel with
    | zero => simp [htail] at hfuel
    | succ fuel =>
      have hfuel' : (xs.flatMap text).length ≤ fuel := by
        rw [List.flatMap_cons, htail, List.length_append, List.length_cons] at hfuel
        omega
      rw [List.flatMap_cons, List.append_assoc]
      refine (run_select_pos (by rw [htail]; rfl)).trans ?_
      rw [run_bind (hread _ hstops), run_bind (ih hxs hreads fuel hfuel')]
      rfl

/-! ### Filters -/

theorem run_filter_of_name {cs : List Char} (s : String) (p : Reader (Filter String))
    (hname : String.ofList (cs.takeWhile Char.isAlpha) = s) (hp : named s = p) :
    filter.run cs = p.run cs := by
  rw [← hp, ← hname]
  rfl

theorem run_window {w : Window String} (hw : ∀ s ∈ w.fields, IsField s) (rest : List Char) :
    window.run (w.text.toList ++ rest) = some (w, rest) := by
  obtain ⟨start, finish, closed⟩ := w
  have hstart : IsField start := hw start (.head _)
  have hfinish : IsField finish := hw finish (.tail _ (.head _))
  cases closed with
  | true =>
    have htext : Window.text ⟨start, finish, true⟩ =
      "between(t," ++ start ++ "," ++ finish ++ ")" := rfl
    simp only [htext, String.toList_append, List.append_assoc]
    refine (run_select_pos rfl).trans ?_
    rw [closedWindow, run_bind (run_literal _ _),
      run_bind (run_field hstart (stops_of_head rfl rfl)), run_bind (run_literal _ _),
      run_bind (run_field hfinish (stops_of_head rfl rfl)), run_bind (run_literal _ _)]
    rfl
  | false =>
    have htext : Window.text ⟨start, finish, false⟩ =
      "gte(t," ++ start ++ ")*lt(t," ++ finish ++ ")" := rfl
    have hhead : some 'g' ≠ some 'b' := by decide
    simp only [htext, String.toList_append, List.append_assoc]
    refine (run_select_neg ?_).trans ?_
    · exact hhead
    rw [halfOpenWindow, run_bind (run_literal _ _),
      run_bind (run_field hstart (stops_of_head rfl rfl)), run_bind (run_literal _ _),
      run_bind (run_field hfinish (stops_of_head rfl rfl)), run_bind (run_literal _ _)]
    rfl

theorem run_color {c d : String} (width height : Int) (hc : IsField c) (hd : IsField d)
    (hrest : Stops isFieldChar rest) :
    filter.run ((Filter.color c width height d).text.toList ++ rest) =
      some (.color c width height d, rest) := by
  have htext : (Filter.color c width height d).text = "color=c=" ++ c ++ ":size=" ++
    toString width ++ "x" ++ toString height ++ ":d=" ++ d := rfl
  simp only [htext, String.toList_append, List.append_assoc]
  refine (run_filter_of_name "color" color rfl rfl).trans ?_
  rw [color, run_bind (run_literal _ _), run_bind (run_field hc (stops_of_head rfl rfl)),
    run_bind (run_literal _ _), run_bind (run_integer _ (stops_of_head rfl rfl)),
    run_bind (run_literal _ _), run_bind (run_integer _ (stops_of_head rfl rfl)),
    run_bind (run_literal _ _), run_bind (run_field hd hrest)]
  rfl

theorem run_trim (audio : Bool) {start duration : String} (hstart : IsField start)
    (hduration : IsField duration) (hrest : Stops isFieldChar rest) :
    filter.run ((Filter.trim audio start duration).text.toList ++ rest) =
      some (.trim audio start duration, rest) := by
  have htext : (Filter.trim audio start duration).text =
      (if audio then "atrim=start=" else "trim=start=") ++ start ++ ":duration=" ++ duration := by
    cases audio <;> rfl
  simp only [htext, String.toList_append, List.append_assoc]
  have hname : filter.run ((if audio then "atrim=start=" else "trim=start=").toList ++
      (start.toList ++ (":duration=".toList ++ (duration.toList ++ rest)))) =
      (trim audio).run ((if audio then "atrim=start=" else "trim=start=").toList ++
        (start.toList ++ (":duration=".toList ++ (duration.toList ++ rest)))) := by
    cases audio with
    | true => exact run_filter_of_name "atrim" (trim true) rfl rfl
    | false => exact run_filter_of_name "trim" (trim false) rfl rfl
  rw [hname, trim, run_bind (run_literal _ _), run_bind (run_field hstart (stops_of_head rfl rfl)),
    run_bind (run_literal _ _), run_bind (run_field hduration hrest)]
  rfl

theorem run_scale (width height : Int) (hrest : Stops isFieldChar rest) :
    filter.run ((Filter.scale width height).text.toList ++ rest) =
      some (.scale width height, rest) := by
  have htext : (Filter.scale width height).text =
    "scale=" ++ toString width ++ ":" ++ toString height := rfl
  simp only [htext, String.toList_append, List.append_assoc]
  refine (run_filter_of_name "scale" scale rfl rfl).trans ?_
  rw [scale, run_bind (run_literal _ _), run_bind (run_integer _ (stops_of_head rfl rfl)),
    run_bind (run_literal _ _), run_bind (run_integer _ hrest.digit)]
  rfl

theorem run_shift {offset : String} (hoffset : IsField offset) (rest : List Char) :
    filter.run ((Filter.shift offset).text.toList ++ rest) = some (.shift offset, rest) := by
  have htext : (Filter.shift offset).text = "setpts=PTS-STARTPTS+" ++ offset ++ "/TB" := rfl
  simp only [htext, String.toList_append, List.append_assoc]
  refine (run_filter_of_name "setpts" shift rfl rfl).trans ?_
  rw [shift, run_bind (run_literal _ _), run_bind (run_field hoffset (stops_of_head rfl rfl)),
    run_bind (run_literal _ _)]
  rfl

theorem run_delay (milliseconds : Int) (rest : List Char) :
    filter.run ((Filter.delay milliseconds).text.toList ++ rest) =
      some (.delay milliseconds, rest) := by
  have htext : (Filter.delay milliseconds).text =
    "adelay=" ++ toString milliseconds ++ ":all=1" := rfl
  simp only [htext, String.toList_append, List.append_assoc]
  refine (run_filter_of_name "adelay" delay rfl rfl).trans ?_
  rw [delay, run_bind (run_literal _ _), run_bind (run_integer _ (stops_of_head rfl rfl)),
    run_bind (run_literal _ _)]
  rfl

theorem run_mix (inputs : Int) (rest : List Char) :
    filter.run ((Filter.mix inputs).text.toList ++ rest) = some (.mix inputs, rest) := by
  have htext : (Filter.mix inputs).text =
    "amix=inputs=" ++ toString inputs ++ ":normalize=0" := rfl
  simp only [htext, String.toList_append, List.append_assoc]
  refine (run_filter_of_name "amix" mix rfl rfl).trans ?_
  rw [mix, run_bind (run_literal _ _), run_bind (run_integer _ (stops_of_head rfl rfl)),
    run_bind (run_literal _ _)]
  rfl

theorem run_overlay {w : Window String} (hw : ∀ s ∈ w.fields, IsField s) (x y : Int)
    (rest : List Char) :
    filter.run ((Filter.overlay w x y).text.toList ++ rest) = some (.overlay w x y, rest) := by
  have htext : (Filter.overlay w x y).text = "overlay=" ++ toString x ++ ":" ++ toString y ++
    ":enable='" ++ w.text ++ "'" := rfl
  simp only [htext, String.toList_append, List.append_assoc]
  refine (run_filter_of_name "overlay" overlay rfl rfl).trans ?_
  rw [overlay, run_bind (run_literal _ _), run_bind (run_integer _ (stops_of_head rfl rfl)),
    run_bind (run_literal _ _), run_bind (run_integer _ (stops_of_head rfl rfl)),
    run_bind (run_literal _ _), run_bind (run_window hw _), run_bind (run_literal _ _)]
  rfl

/-- The text of a drawn text from the option with its file on, and what comes after it. -/
def drawnFrom (d : DrawText String) (rest : List Char) : List Char :=
  "textfile=".toList ++ (d.textFile.toList ++ (":expansion=none:x=(".toList ++
    ((toString d.anchorX).toList ++ ("-text_w/2):y=(".toList ++ ((toString d.anchorY).toList ++
      ("-text_h/2):fontsize=".toList ++ ((toString d.fontSize).toList ++
        (":fontcolor=".toList ++ (d.color.toList ++ (":enable='".toList ++
          (d.window.text.toList ++ ("'".toList ++ rest))))))))))))

theorem toList_drawText (d : DrawText String) (rest : List Char) :
    d.text.toList ++ rest = "drawtext=".toList ++ (match d.fontFile with
      | some file => "fontfile=".toList ++ (file.toList ++ (":".toList ++ drawnFrom d rest))
      | none => drawnFrom d rest) := by
  obtain ⟨textFile, fontFile, x, y, size, color, w⟩ := d
  cases fontFile <;>
  · simp only [DrawText.text, String.toList_append, String.toList_intercalate, List.cons_append,
      List.nil_append, List.map_cons, List.map_nil, List.intercalate_cons_cons,
      List.intercalate_singleton, List.append_assoc]
    rfl

theorem run_fontFile {d : DrawText String} (hfile : ∀ s ∈ d.fontFile, IsField s) :
    (select 'f' fontFile (return none)).run (match d.fontFile with
      | some file => "fontfile=".toList ++ (file.toList ++ (":".toList ++ drawnFrom d rest))
      | none => drawnFrom d rest) = some (d.fontFile, drawnFrom d rest) := by
  cases hd : d.fontFile with
  | some file =>
    refine (run_select_pos rfl).trans ?_
    rw [fontFile, run_bind (run_literal _ _),
      run_bind (run_field (hfile file hd) (stops_of_head rfl rfl)), run_bind (run_literal _ _)]
    rfl
  | none =>
    have hhead : some 't' ≠ some 'f' := by decide
    refine run_select_neg ?_
    exact hhead

theorem run_drawText {d : DrawText String} (hd : ∀ s ∈ (Filter.drawText d).fields, IsField s)
    (rest : List Char) :
    filter.run ((Filter.drawText d).text.toList ++ rest) = some (.drawText d, rest) := by
  have htextFile : IsField d.textFile := hd _ (by simp [Filter.fields])
  have hcolor : IsField d.color := hd _ (by simp [Filter.fields])
  have hfile : ∀ s ∈ d.fontFile, IsField s := fun s hs => hd s (by simp_all [Filter.fields])
  have hwindow : ∀ s ∈ d.window.fields, IsField s := fun s hs => hd s (by simp [Filter.fields, hs])
  have htext : (Filter.drawText d).text = d.text := rfl
  rw [htext, toList_drawText]
  refine (run_filter_of_name "drawtext" drawText rfl rfl).trans ?_
  rw [drawText, run_bind (run_literal _ _), run_bind (run_fontFile hfile)]
  unfold drawnFrom
  rw [run_bind (run_literal _ _), run_bind (run_field htextFile (stops_of_head rfl rfl)),
    run_bind (run_literal _ _), run_bind (run_integer _ (stops_of_head rfl rfl)),
    run_bind (run_literal _ _), run_bind (run_integer _ (stops_of_head rfl rfl)),
    run_bind (run_literal _ _), run_bind (run_integer _ (stops_of_head rfl rfl)),
    run_bind (run_literal _ _), run_bind (run_field hcolor (stops_of_head rfl rfl)),
    run_bind (run_literal _ _), run_bind (run_window hwindow _), run_bind (run_literal _ _)]
  rfl

theorem run_passthrough (hrest : Stops isFieldChar rest) :
    filter.run ((Filter.passthrough : Filter String).text.toList ++ rest) =
      some (.passthrough, rest) := by
  have hletters : ∀ c ∈ "null".toList, c.isAlpha = true :=
    List.all_eq_true.1 (by decide)
  have hname : ("null".toList ++ rest).takeWhile Char.isAlpha = "null".toList :=
    takeWhile_append hletters (hrest.imp fun _ => isFieldChar_of_isAlpha)
  have htext : (Filter.passthrough : Filter String).text = "null" := rfl
  rw [htext]
  refine (run_filter_of_name "null" passthrough ?_ rfl).trans (run_bind (run_literal _ rest))
  rw [hname, String.ofList_toList]

theorem run_filter {f : Filter String} (hf : f.IsLegible) (hrest : Stops isFieldChar rest) :
    filter.run (f.text.toList ++ rest) = some (f, rest) := by
  have hfields := hf.fields
  cases f with
  | color c width height d =>
    exact run_color width height (hfields c (.head _)) (hfields d (.tail _ (.head _))) hrest
  | trim audio start duration =>
    exact run_trim audio (hfields start (.head _)) (hfields duration (.tail _ (.head _))) hrest
  | scale width height => exact run_scale width height hrest
  | shift offset => exact run_shift (hfields offset (.head _)) rest
  | resetSound =>
    exact (run_filter_of_name "asetpts" resetSound rfl rfl).trans (run_bind (run_literal _ rest))
  | delay milliseconds => exact run_delay milliseconds rest
  | overlay w x y => exact run_overlay hfields x y rest
  | drawText d => exact run_drawText hfields rest
  | mix inputs => exact run_mix inputs rest
  | passthrough => exact run_passthrough hrest
  | gate w => exact absurd rfl (hf.not_gate w)

/-! ### Statements and graphs -/

/-- No filter begins like a label. -/
theorem head?_text_ne {f : Filter String} (hf : f.IsLegible) (hrest : Stops isFieldChar rest) :
    (f.text.toList ++ rest).head? ≠ some '[' := by
  intro hhead
  obtain ⟨tail, htail⟩ := List.head?_eq_some_iff.1 hhead
  have hnone : filter.run ('[' :: tail) = none := rfl
  have hread := run_filter hf hrest
  rw [htail, hnone] at hread
  cases hread

theorem not_mem_numbered {c : Char} {stem : String} (hstem : c ∉ stem.toList)
    (hc : c.isDigit = false) (n : Nat) : c ∉ (toString stem ++ toString n).toList := by
  rw [Label.toList_numbered, List.mem_append, not_or]
  refine ⟨hstem, fun hmem => ?_⟩
  rw [Label.isDigit_of_mem_toDigits hmem] at hc
  cases hc

theorem bracket_not_mem_text {l : Label} (hl : l.isNamed = false) : ']' ∉ l.text.toList := by
  cases l with
  | stream i kind =>
    rw [Label.toList_stream, List.mem_append, not_or]
    refine ⟨fun hmem => ?_, by cases kind <;> decide⟩
    cases Label.isDigit_of_mem_toDigits hmem
  | visual i => exact not_mem_numbered (by decide) rfl i
  | stage k => exact not_mem_numbered (by decide) rfl k
  | audio i => exact not_mem_numbered (by decide) rfl i
  | caption k => exact not_mem_numbered (by decide) rfl k
  | base => decide
  | finalPicture => decide
  | finalSound => decide
  | named name => cases hl

theorem run_pad {l : Label} (hl : l.isNamed = false) (rest : List Char) :
    pad.run (l.pad.toList ++ rest) = some (l, rest) := by
  have htext : l.pad = "[" ++ l.text ++ "]" := rfl
  have hinside : ∀ c ∈ l.text.toList, (c ≠ ']' : Bool) = true := by
    intro c hc
    refine decide_eq_true ?_
    rintro rfl
    exact bracket_not_mem_text hl hc
  simp only [htext, String.toList_append, List.append_assoc]
  rw [pad, run_bind (run_literal _ _), run_bind (run_taken hinside (stops_of_head rfl rfl)),
    run_bind (run_literal _ _), Label.read_text hl]
  rfl

theorem toList_intercalate_cons (separator s : String) (more : List String) :
    (separator.intercalate (s :: more)).toList =
      s.toList ++ more.flatMap fun t => separator.toList ++ t.toList := by
  induction more generalizing s with
  | nil => simp
  | cons t more ih =>
    rw [String.toList_intercalate, List.map_cons, List.map_cons, List.intercalate_cons_cons,
      ← List.map_cons, ← String.toList_intercalate, ih, List.flatMap_cons, List.append_assoc,
      List.append_assoc]

theorem toList_statement (inputs : List Label) (f : Filter String) (more : List (Filter String))
    (output : Label) :
    (Statement.text ⟨inputs, f :: more, output⟩).toList =
      inputs.flatMap (·.pad.toList) ++ (f.text.toList ++
        (more.flatMap (fun g => ",".toList ++ g.text.toList) ++ output.pad.toList)) := by
  simp only [Statement.text, List.map_cons, String.toList_append, toList_intercalate_cons,
    String.toList_join, List.flatMap_map, List.append_assoc]

theorem run_nextFilter {f : Filter String} (hf : f.IsLegible) (hrest : Stops isFieldChar rest) :
    nextFilter.run (",".toList ++ f.text.toList ++ rest) = some (f, rest) := by
  rw [List.append_assoc, nextFilter, run_bind (run_literal _ _)]
  exact run_filter hf hrest

theorem stops_pad (l : Label) (rest : List Char) : Stops isFieldChar (l.pad.toList ++ rest) := by
  have htext : l.pad = "[" ++ l.text ++ "]" := rfl
  simp only [htext, String.toList_append, List.append_assoc]
  exact stops_of_head rfl rfl

theorem head?_pad (l : Label) : l.pad.toList.head? = some '[' := by
  have htext : l.pad = "[" ++ l.text ++ "]" := rfl
  simp only [htext, String.toList_append, List.append_assoc]
  rfl

theorem run_pads {inputs : List Label} (hinputs : ∀ l ∈ inputs, l.isNamed = false)
    (hrest : rest.head? ≠ some '[') :
    (all '[' pad).run (inputs.flatMap (·.pad.toList) ++ rest) = some (inputs, rest) :=
  run_all (fun _ => false) (fun l _ => head?_pad l) (fun l hl rest _ => run_pad (hinputs l hl) rest)
    rfl (fun _ _ => rfl) hrest

theorem run_nextFilters {filters : List (Filter String)} (hfilters : ∀ f ∈ filters, f.IsLegible)
    (hrest : Stops isFieldChar rest) (hcomma : rest.head? ≠ some ',') :
    (all ',' nextFilter).run (filters.flatMap (fun f => ",".toList ++ f.text.toList) ++ rest) =
      some (filters, rest) :=
  run_all isFieldChar (fun _ _ => rfl)
    (fun f hf _ hstops => run_nextFilter (hfilters f hf) hstops) rfl hrest hcomma

theorem run_statement {s : Statement String} (hs : s.IsLegible) (rest : List Char) :
    statement.run (s.text.toList ++ rest) = some (s, rest) := by
  obtain ⟨inputs, filters, output⟩ := s
  obtain ⟨f, more, rfl⟩ := List.exists_cons_of_ne_nil hs.filters_ne
  obtain ⟨houtput, hinputs⟩ := List.forall_mem_cons.1 hs.labels
  obtain ⟨hf, hmore⟩ := List.forall_mem_cons.1 hs.filters
  have hcomma : (output.pad.toList ++ rest).head? ≠ some ',' := by
    rw [List.head?_append, head?_pad, Option.some_or]
    decide
  have hchain : Stops isFieldChar (more.flatMap (fun g => ",".toList ++ g.text.toList) ++
      (output.pad.toList ++ rest)) := by
    cases more with
    | nil => exact stops_pad output rest
    | cons g more => exact stops_of_head (c := ',') rfl rfl
  rw [toList_statement]
  simp only [List.append_assoc]
  rw [statement, run_bind (run_pads hinputs (head?_text_ne hf hchain)),
    run_bind (run_filter hf hchain), run_bind (run_nextFilters hmore (stops_pad output rest) hcomma),
    run_bind (run_pad houtput rest)]
  rfl

theorem run_nextStatement {s : Statement String} (hs : s.IsLegible) (rest : List Char) :
    nextStatement.run ("; ".toList ++ s.text.toList ++ rest) = some (s, rest) := by
  rw [List.append_assoc, nextStatement, run_bind (run_literal _ _)]
  exact run_statement hs rest

end Reader

/-- A graph of legible statements reads back as they are. -/
theorem readGraph_graphText {statements : List (Statement String)} (hne : statements ≠ [])
    (hs : ∀ s ∈ statements, s.IsLegible) : readGraph (graphText statements) = some statements := by
  obtain ⟨s, more, rfl⟩ := List.exists_cons_of_ne_nil hne
  obtain ⟨hs, hmore⟩ := List.forall_mem_cons.1 hs
  have hread : Reader.graph.run (graphText (s :: more)).toList = some (s :: more, []) := by
    have hnext : (Reader.all ';' Reader.nextStatement).run
        (more.flatMap (fun t => "; ".toList ++ t.text.toList) ++ []) = some (more, []) :=
      Reader.run_all (fun _ => false) (fun _ _ => rfl)
        (fun t ht rest _ => Reader.run_nextStatement (hmore t ht) rest) rfl (fun _ _ => rfl) nofun
    rw [List.append_nil] at hnext
    rw [graphText, List.map_cons, Reader.toList_intercalate_cons, List.flatMap_map, Reader.graph,
      Reader.run_bind (Reader.run_statement hs _), Reader.run_bind hnext]
    rfl
  rw [readGraph, hread]

end Montage.Graph
