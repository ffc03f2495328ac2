import Mathlib.Data.List.TakeWhile
import Montage.Json.Reader
import Montage.Proofs.Outcome

/-!
# Numbers, words and strings

A word and a string show by themselves where they end. A number is ended by what follows it, and it is
read in the same way before anything that may follow a value (`readNumber_eq_ok`).
-/

namespace Montage.Json

variable {cs rest : List Char} {v : Value}

/-- The text does not go on with a character of a class. -/
def Ends (p : Char → Bool) (cs : List Char) : Prop := ∀ c ∈ cs.head?, p c = false

def isStop (c : Char) : Bool := isSpace c || c = ',' || c = ']' || c = '\x7d'

/-- What may follow a value: blanks, a comma or a closing bracket, or nothing. -/
def IsStop (cs : List Char) : Prop := ∀ c ∈ cs.head?, isStop c = true

theorem ends_cons {p : Char → Bool} {c : Char} (h : p c = false) : Ends p (c :: cs) := by
  intro d hd
  rw [List.head?_cons, Option.mem_some_iff] at hd
  rwa [← hd]

theorem ends_of_isStop (h : IsStop cs) : Ends Char.isDigit cs ∧ Ends (· == '.') cs := by
  have hstop {c : Char} (hc : isStop c = true) : c.isDigit = false ∧ (c == '.') = false := by
    simp only [isStop, isSpace, Bool.or_eq_true, decide_eq_true_eq] at hc
    obtain (((((rfl | rfl) | rfl) | rfl) | rfl) | rfl) | rfl := hc
    all_goals exact ⟨rfl, rfl⟩
  exact ⟨fun c hc => (hstop (h c hc)).1, fun c hc => (hstop (h c hc)).2⟩

theorem ends_append {p : Char → Bool} {more : List Char} (h : Ends p cs) (hmore : Ends p more) :
    Ends p (cs ++ more) := by
  cases cs with
  | nil => exact hmore
  | cons c cs => exact h

theorem ends_dropWhile (p : Char → Bool) (cs : List Char) : Ends p (cs.dropWhile p) := by
  intro c hc
  exact Bool.eq_false_iff.2 fun h => by
    have hhead := List.head?_dropWhile_not p cs
    rw [Option.mem_def.1 hc] at hhead
    exact absurd h (by simpa using hhead)

theorem takeWhile_ends {p : Char → Bool} {run : List Char} (hrun : ∀ c ∈ run, p c = true)
    (h : Ends p cs) : (run ++ cs).takeWhile p = run := by
  rw [List.takeWhile_append_of_pos hrun]
  cases cs with
  | nil => rw [List.takeWhile_nil, List.append_nil]
  | cons c cs => rw [List.takeWhile_cons_of_neg (by simp [h c rfl]), List.append_nil]

theorem dropWhile_ends {p : Char → Bool} {run : List Char} (hrun : ∀ c ∈ run, p c = true)
    (h : Ends p cs) : (run ++ cs).dropWhile p = cs := by
  rw [List.dropWhile_append_of_pos hrun]
  cases cs with
  | nil => rfl
  | cons c cs => rw [List.dropWhile_cons_of_neg (by simp [h c rfl])]

theorem exists_run (p : Char → Bool) (cs : List Char) : ∃ run, cs.takeWhile p = run ∧
    cs = run ++ cs.dropWhile p ∧ ∀ c ∈ run, p c = true :=
  ⟨_, rfl, (List.takeWhile_append_dropWhile).symm, fun _ => List.mem_takeWhile_imp⟩

/-! ### Blanks -/

/-- The blanks that are skipped, with what they may stand before. -/
theorem exists_spaces (cs : List Char) : ∃ spaces, cs = spaces ++ skipSpace cs ∧
    (∀ c ∈ spaces, isSpace c = true) ∧
    ∀ cs', cs'.head? = (skipSpace cs).head? → skipSpace (spaces ++ cs') = cs' := by
  obtain ⟨spaces, -, hcs, hspaces⟩ := exists_run isSpace cs
  refine ⟨spaces, hcs, hspaces, fun cs' hhead => dropWhile_ends hspaces fun c hc => ?_⟩
  rw [hhead] at hc
  exact ends_dropWhile isSpace cs c hc

theorem isStop_spaces {spaces : List Char} (hspaces : ∀ c ∈ spaces, isSpace c = true) {c : Char}
    (h : isStop c = true) : IsStop (spaces ++ c :: cs) := by
  intro d hd
  cases spaces with
  | nil =>
    rw [List.nil_append, List.head?_cons, Option.mem_some_iff] at hd
    rwa [← hd]
  | cons first spaces =>
    rw [List.cons_append, List.head?_cons, Option.mem_some_iff] at hd
    have hfirst := hspaces first List.mem_cons_self
    rw [← hd, isStop, hfirst]
    rfl

/-! ### Numbers -/

theorem takeWhole_eq (h : (takeWhole cs).1 ≠ []) : cs = (takeWhole cs).1 ++ (takeWhole cs).2 ∧
    ∀ rest, Ends Char.isDigit rest → takeWhole ((takeWhole cs).1 ++ rest) = ((takeWhole cs).1, rest) := by
  unfold takeWhole at h ⊢
  split
  · exact ⟨rfl, fun _ _ => rfl⟩
  · rename_i hzero
    obtain ⟨run, htake, hcs, hrun⟩ := exists_run Char.isDigit cs
    simp only [htake] at h ⊢
    refine ⟨hcs, fun rest hrest => ?_⟩
    split
    · rename_i hhead
      cases run with
      | nil => exact absurd rfl h
      | cons c run =>
        rw [List.cons_append, List.cons.injEq] at hhead
        rw [hhead.1] at hcs
        exact absurd hcs (hzero _)
    · rw [takeWhile_ends hrun hrest, dropWhile_ends hrun hrest]

theorem takeFraction_eq (cs : List Char) : cs = (takeFraction cs).1 ++ (takeFraction cs).2 ∧
    Ends Char.isDigit (takeFraction cs).1 ∧
    ∀ rest, Ends Char.isDigit rest → Ends (· == '.') rest →
      takeFraction ((takeFraction cs).1 ++ rest) = ((takeFraction cs).1, rest) := by
  have hnone : ([] : List Char).isEmpty = true := rfl
  have hplain (rest : List Char) (hpoint : Ends (· == '.') rest) : takeFraction rest = ([], rest) := by
    unfold takeFraction
    split
    · exact absurd (hpoint _ rfl) (by decide)
    · rfl
  have hempty : Ends Char.isDigit [] := fun c hc => nomatch hc
  unfold takeFraction
  split
  · rename_i tail
    obtain ⟨run, htake, htail, hrun⟩ := exists_run Char.isDigit tail
    simp only [htake]
    split
    · exact ⟨rfl, hempty, fun rest _ => hplain rest⟩
    · rename_i hne
      refine ⟨congrArg _ htail, ends_cons rfl, fun rest hrest _ => ?_⟩
      simp only [List.cons_append, takeWhile_ends hrun hrest, dropWhile_ends hrun hrest]
      rw [if_neg hne]
  · exact ⟨rfl, hempty, fun rest _ => hplain rest⟩

/-- The texts that are taken as exponents. -/
inductive IsExponent : List Char → Prop where
  | mk (letter : Char) (sign run : List Char) (hletter : letter = 'e' ∨ letter = 'E')
      (hsign : sign = [] ∨ sign = ['-'] ∨ sign = ['+']) (hne : run ≠ [])
      (hrun : ∀ c ∈ run, c.isDigit = true) : IsExponent (letter :: sign ++ run)

theorem takeExponent_append {exponent : List Char} (h : IsExponent exponent)
    (hrest : Ends Char.isDigit rest) : takeExponent (exponent ++ rest) = (exponent, rest) := by
  obtain ⟨letter, sign, run, hletter, hsign, hne, hrun⟩ := h
  have hkind : ¬ (letter ≠ 'e' && letter ≠ 'E') = true := by
    obtain rfl | rfl := hletter <;> decide
  obtain ⟨first, more, rfl⟩ := List.exists_cons_of_ne_nil hne
  have hfirst : first.isDigit = true := hrun first List.mem_cons_self
  have hnoSign : first ≠ '-' ∧ first ≠ '+' := by
    constructor
    · rintro rfl
      exact absurd hfirst (by decide)
    · rintro rfl
      exact absurd hfirst (by decide)
  have htake := takeWhile_ends hrun hrest
  have hdrop := dropWhile_ends hrun hrest
  rw [List.cons_append] at htake hdrop
  unfold takeExponent
  rw [List.cons_append, List.cons_append]
  simp only [if_neg hkind]
  obtain rfl | rfl | rfl := hsign
  · rw [List.nil_append, List.cons_append]
    split
    · rename_i heq
      exact absurd (List.cons.inj heq).1 hnoSign.1
    · rename_i heq
      exact absurd (List.cons.inj heq).1 hnoSign.2
    · simp [htake, hdrop]
  all_goals simp [htake, hdrop]

theorem takeExponent_cases (cs : List Char) : takeExponent cs = ([], cs) ∨
    ∃ exponent rest, cs = exponent ++ rest ∧ IsExponent exponent ∧
      takeExponent cs = (exponent, rest) := by
  unfold takeExponent
  split
  · rename_i letter tail
    split
    · exact .inl rfl
    · rename_i hkind
      have hletter : letter = 'e' ∨ letter = 'E' := by
        simpa [Decidable.or_iff_not_imp_left] using hkind
      -- The digits are looked for in the same way behind each of the three signs.
      have hdigits (sign digits : List Char) (hsign : sign = [] ∨ sign = ['-'] ∨ sign = ['+'])
          (htail : tail = sign ++ digits) :
          (if (digits.takeWhile Char.isDigit).isEmpty then ([], letter :: tail)
            else (letter :: sign ++ digits.takeWhile Char.isDigit,
              digits.dropWhile Char.isDigit)) = ([], letter :: tail) ∨
          ∃ exponent rest, letter :: tail = exponent ++ rest ∧ IsExponent exponent ∧
            (if (digits.takeWhile Char.isDigit).isEmpty then ([], letter :: tail)
              else (letter :: sign ++ digits.takeWhile Char.isDigit,
                digits.dropWhile Char.isDigit)) = (exponent, rest) := by
        obtain ⟨run, htake, hsplit, hrun⟩ := exists_run Char.isDigit digits
        rw [htake]
        by_cases hne : run = []
        · rw [hne]
          exact .inl rfl
        · refine .inr ⟨letter :: sign ++ run, digits.dropWhile Char.isDigit, ?_,
            .mk letter sign run hletter hsign hne hrun, if_neg (by simpa using hne)⟩
          rw [htail, List.append_assoc, ← hsplit]
          rfl
      split
      rename_i sign digits heq
      split at heq <;> cases heq
      · exact hdigits ['-'] _ (.inr (.inl rfl)) rfl
      · exact hdigits ['+'] _ (.inr (.inr rfl)) rfl
      · exact hdigits [] _ (.inl rfl) rfl
  · exact .inl rfl

theorem takeExponent_of_isStop (h : IsStop rest) : takeExponent rest = ([], rest) := by
  obtain hnone | ⟨exponent, more, rfl, ⟨letter, sign, run, hletter, -, -, -⟩, -⟩ :=
    takeExponent_cases rest
  · exact hnone
  · have hstop := h letter rfl
    obtain rfl | rfl := hletter
    · exact absurd hstop (by decide)
    · exact absurd hstop (by decide)

theorem exists_cons_takeWhole (h : (takeWhole cs).1 ≠ []) :
    ∃ c more, (takeWhole cs).1 = c :: more ∧ c.isDigit = true := by
  unfold takeWhole at h ⊢
  split
  · exact ⟨'0', [], rfl, rfl⟩
  · obtain ⟨run, htake, -, hrun⟩ := exists_run Char.isDigit cs
    simp only [htake] at h ⊢
    obtain ⟨c, more, rfl⟩ := List.exists_cons_of_ne_nil h
    exact ⟨c, more, rfl, hrun c List.mem_cons_self⟩

/-- The parts of a number behind its sign, and that they are found again before whatever may follow a
value. -/
theorem exists_parts (h : (takeWhole cs).1 ≠ []) : ∃ whole fraction exponent rest,
    cs = whole ++ (fraction ++ (exponent ++ rest)) ∧
    takeWhole cs = (whole, fraction ++ (exponent ++ rest)) ∧
    takeFraction (fraction ++ (exponent ++ rest)) = (fraction, exponent ++ rest) ∧
    takeExponent (exponent ++ rest) = (exponent, rest) ∧
    ∀ rest', IsStop rest' →
      takeWhole (whole ++ (fraction ++ (exponent ++ rest'))) =
          (whole, fraction ++ (exponent ++ rest')) ∧
        takeFraction (fraction ++ (exponent ++ rest')) = (fraction, exponent ++ rest') ∧
        takeExponent (exponent ++ rest') = (exponent, rest') := by
  obtain ⟨hwhole, hwhole'⟩ := takeWhole_eq h
  obtain ⟨hfraction, hdigit, hfraction'⟩ := takeFraction_eq (takeWhole cs).2
  -- Neither an exponent nor what may follow a value begins with a digit or with a point.
  obtain ⟨exponent, rest, hexponent, htake, hends⟩ : ∃ exponent rest,
      (takeFraction (takeWhole cs).2).2 = exponent ++ rest ∧
      takeExponent (exponent ++ rest) = (exponent, rest) ∧
      ∀ rest', IsStop rest' → takeExponent (exponent ++ rest') = (exponent, rest') ∧
        Ends Char.isDigit (exponent ++ rest') ∧ Ends (· == '.') (exponent ++ rest') := by
    obtain hnone | ⟨exponent, rest, hsplit, hexponent, htake⟩ :=
      takeExponent_cases (takeFraction (takeWhole cs).2).2
    · exact ⟨[], _, rfl, hnone, fun rest' hrest' => ⟨takeExponent_of_isStop hrest', ends_of_isStop hrest'⟩⟩
    · refine ⟨exponent, rest, hsplit, by rw [← hsplit, htake], fun rest' hrest' =>
        ⟨takeExponent_append hexponent (ends_of_isStop hrest').1, ?_⟩⟩
      obtain ⟨letter, sign, run, hletter, -, -, -⟩ := hexponent
      obtain rfl | rfl := hletter
      · exact ⟨ends_cons rfl, ends_cons rfl⟩
      · exact ⟨ends_cons rfl, ends_cons rfl⟩
  refine ⟨(takeWhole cs).1, (takeFraction (takeWhole cs).2).1, exponent, rest, ?_, ?_, ?_, htake,
    fun rest' hrest' => ?_⟩
  · rw [← hexponent, ← hfraction, ← hwhole]
  · rw [← hexponent, ← hfraction]
  · rw [← hexponent, ← hfraction]
  · obtain ⟨htake', hdigit', hpoint'⟩ := hends rest' hrest'
    exact ⟨hwhole' _ (ends_append hdigit hdigit'), hfraction' _ hdigit' hpoint', htake'⟩

/-- The number that a literal stands for. -/
def numeral? (sign whole fraction exponent : List Char) : Option Value :=
  if fraction.isEmpty && exponent.isEmpty then
    (Text.readInt? (.ofList (sign ++ whole ++ fraction ++ exponent))).map .int
  else (Scientific.read? (sign ++ whole ++ fraction ++ exponent)).map (.float ·.toBinary64)

theorem readNumber_append {sign whole fraction exponent rest₁ rest₂ tail : List Char}
    (hsign : sign = [] ∨ sign = ['-']) (hne : (takeWhole cs).1 ≠ [])
    (hwhole : takeWhole cs = (whole, rest₁)) (hfraction : takeFraction rest₁ = (fraction, rest₂))
    (hexponent : takeExponent rest₂ = (exponent, tail)) :
    readNumber (sign ++ cs) = .ok (v, rest) ↔
      numeral? sign whole fraction exponent = some v ∧ tail = rest := by
  have hwhole_ne : ¬ whole.isEmpty = true := by
    rw [hwhole] at hne
    simpa using hne
  unfold readNumber numeral?
  split
  rename_i sign' body hsplit
  obtain ⟨rfl, rfl⟩ : sign' = sign ∧ body = cs := by
    obtain rfl | rfl := hsign
    · split at hsplit
      · rename_i hminus
        rw [List.nil_append] at hminus
        rw [hminus] at hne
        exact absurd rfl hne
      · cases hsplit
        exact ⟨rfl, rfl⟩
    · cases hsplit
      exact ⟨rfl, rfl⟩
  simp only [hwhole, hfraction, hexponent, if_neg hwhole_ne]
  split
  · cases Text.readInt? (.ofList (sign' ++ whole ++ fraction ++ exponent)) <;> simp
  · cases Scientific.read? (sign' ++ whole ++ fraction ++ exponent) <;> simp [fail]

theorem exists_sign (h : readNumber cs = .ok (v, rest)) : ∃ sign body, cs = sign ++ body ∧
    (sign = [] ∨ sign = ['-']) ∧ (takeWhole body).1 ≠ [] := by
  unfold readNumber at h
  split at h
  rename_i sign body hsign
  have hne : (takeWhole body).1 ≠ [] := by
    rintro hempty
    simp only [hempty] at h
    cases h
  split at hsign
  · cases hsign
    exact ⟨['-'], body, rfl, .inr rfl, hne⟩
  · cases hsign
    exact ⟨[], cs, rfl, .inl rfl, hne⟩

/-- A number is read in the same way before whatever may follow a value. -/
theorem readNumber_eq_ok (h : readNumber cs = .ok (v, rest)) : ∃ text, cs = text ++ rest ∧
    (∃ sign c more, text = sign ++ c :: more ∧ (sign = [] ∨ sign = ['-']) ∧ c.isDigit = true) ∧
    (∀ items, v ≠ .list items) ∧
    ∀ rest', IsStop rest' → readNumber (text ++ rest') = .ok (v, rest') := by
  obtain ⟨sign, body, rfl, hsign, hne⟩ := exists_sign h
  obtain ⟨whole, fraction, exponent, tail, hbody, hwhole, hfraction, hexponent, hagain⟩ :=
    exists_parts hne
  obtain ⟨hvalue, rfl⟩ := (readNumber_append hsign hne hwhole hfraction hexponent).1 h
  obtain ⟨c, more, hc, hdigit⟩ := exists_cons_takeWhole hne
  obtain rfl : whole = c :: more := by rwa [hwhole] at hc
  refine ⟨sign ++ (c :: more ++ (fraction ++ exponent)), by simp [hbody],
    ⟨sign, c, _, rfl, hsign, hdigit⟩, ?_, fun rest' hrest' => ?_⟩
  · rintro items rfl
    unfold numeral? at hvalue
    split at hvalue
    all_goals
      obtain ⟨_, -, hkind⟩ := Option.map_eq_some_iff.1 hvalue
      cases hkind
  · obtain ⟨hwhole', hfraction', hexponent'⟩ := hagain rest' hrest'
    have hne' : (takeWhole (c :: more ++ (fraction ++ (exponent ++ rest')))).1 ≠ [] := by
      rw [hwhole']
      exact List.cons_ne_nil _ _
    simpa using (readNumber_append hsign hne' hwhole' hfraction' hexponent').2 ⟨hvalue, rfl⟩

/-! ### Words and strings -/

/-- No word is as short as a sign, and none has a digit in it. -/
theorem readWord?_number {sign more : List Char} {c : Char} (hsign : sign = [] ∨ sign = ['-'])
    (hc : c.isDigit = true) : readWord? (sign ++ c :: more) = none := by
  have hwords : ∀ word ∈ words, 2 ≤ word.1.toList.length ∧
      word.1.toList.all (!·.isDigit) = true := by decide
  have hlength : sign.length < 2 := by
    obtain rfl | rfl := hsign <;> decide
  apply List.findSome?_eq_none_iff.2
  intro word hword
  apply if_neg
  intro hfront
  obtain ⟨hlong, hletters⟩ := hwords word hword
  have hplace : word.1.toList[sign.length]? = some c := by
    obtain ⟨tail, htail⟩ := List.isPrefixOf_iff_prefix.1 hfront
    rw [← @List.getElem?_append_left _ _ tail _ (by omega), htail,
      List.getElem?_append_right (Nat.le_refl _), Nat.sub_self]
    rfl
  have hletter := List.all_eq_true.1 hletters c (List.mem_of_getElem? hplace)
  rw [hc] at hletter
  cases hletter

/-- No word begins another one. -/
theorem readWord?_eq_some (h : readWord? cs = some (v, rest)) : ∃ c text, cs = c :: text ++ rest ∧
    (∀ items, v ≠ .list items) ∧ ∀ rest', readWord? (c :: text ++ rest') = some (v, rest') := by
  obtain ⟨word, hword, hfound⟩ := List.exists_of_findSome?_eq_some h
  obtain ⟨hfront, hsame⟩ := Option.ite_none_right_eq_some.1 hfound
  obtain ⟨rest, rfl⟩ := List.isPrefixOf_iff_prefix.1 hfront
  rw [← String.length_toList, List.drop_left] at hsame
  simp only [words, List.mem_cons, List.not_mem_nil, or_false] at hword
  obtain rfl | rfl | rfl | rfl | rfl | rfl := hword
  all_goals
    cases hsame
    exact ⟨_, _, rfl, nofun, fun _ => rfl⟩

/-- What an escape or a character adds to the code units behind it. -/
theorem readUnits_hex {content : List Char} {a b c d e : Char} {unit : Nat}
    (h : hexUnit? a b c d = some unit) {units : List Nat}
    (hrest : readUnits content (e :: cs) = .ok (units, rest)) :
    readUnits content ('\\' :: 'u' :: a :: b :: c :: d :: e :: cs) = .ok (unit :: units, rest) := by
  rw [readUnits, h]
  simp only [hrest]
  rfl

theorem readUnits_escape {content : List Char} {c d : Char} (h : escape? c = some d)
    {units : List Nat} (hrest : readUnits content cs = .ok (units, rest)) :
    readUnits content ('\\' :: c :: cs) = .ok (d.toNat :: units, rest) := by
  have hletter : c ≠ 'u' := by
    rintro rfl
    cases h
  rw [readUnits]
  · rw [h]
    simp only [hrest]
    rfl
  · exact fun _ _ _ _ _ _ hu => absurd hu hletter
  · exact hletter

theorem readUnits_plain {content : List Char} {c : Char} (hquote : c ≠ '"') (hslash : c ≠ '\\')
    (hplain : ¬ c.toNat < 0x20) {units : List Nat}
    (hrest : readUnits content cs = .ok (units, rest)) :
    readUnits content (c :: cs) = .ok (c.toNat :: units, rest) := by
  rw [readUnits]
  · simp only [if_neg hplain, hrest]
    rfl
  · exact hquote
  all_goals intros; contradiction

theorem readUnits_eq_ok {content : List Char} {units : List Nat}
    (h : readUnits content cs = .ok (units, rest)) : ∃ text, cs = text ++ '"' :: rest ∧
    ∀ content' rest', readUnits content' (text ++ '"' :: rest') = .ok (units, rest') := by
  fun_induction readUnits content cs generalizing units with
  | case1 => cases h
  | case2 =>
    cases h
    exact ⟨[], rfl, fun _ _ => rfl⟩
  | case3 => cases h
  | case4 => cases h
  | case5 a b c d e tail unit hunit ih =>
    obtain ⟨⟨units', rest'⟩, hread, hdone⟩ := Outcome.bind_eq_ok.1 h
    cases hdone
    obtain ⟨text, htext, hagain⟩ := ih hread
    refine ⟨'\\' :: 'u' :: a :: b :: c :: d :: text, by rw [htext]; rfl, fun content' rest' => ?_⟩
    have hrest := hagain content' rest'
    -- The quote that ends the string stands for the character behind the digits, if nothing else does.
    cases text with
    | nil => exact readUnits_hex hunit hrest
    | cons e text => exact readUnits_hex hunit hrest
  | case6 => cases h
  | case7 => cases h
  | case8 c tail _ _ d hd ih =>
    obtain ⟨⟨units', rest'⟩, hread, hdone⟩ := Outcome.bind_eq_ok.1 h
    cases hdone
    obtain ⟨text, htext, hagain⟩ := ih hread
    exact ⟨'\\' :: c :: text, by rw [htext]; rfl, fun content' rest' =>
      readUnits_escape hd (hagain content' rest')⟩
  | case9 => cases h
  | case10 c tail hquote hend _ _ hescape _ hplain =>
    rename_i ih
    obtain ⟨⟨units', rest'⟩, hread, hdone⟩ := Outcome.bind_eq_ok.1 h
    cases hdone
    obtain ⟨text, htext, hagain⟩ := ih hread
    have hslash : c ≠ '\\' := fun hc => by
      cases tail with
      | nil => exact hend hc rfl
      | cons d tail => exact hescape d tail hc rfl
    exact ⟨c :: text, by rw [htext]; rfl, fun content' rest' =>
      readUnits_plain hquote hslash hplain (hagain content' rest')⟩

theorem readString_eq_ok {s : String} (h : readString cs = .ok (s, rest)) :
    ∃ text, cs = text ++ '"' :: rest ∧
      ∀ rest', readString (text ++ '"' :: rest') = .ok (s, rest') := by
  obtain ⟨⟨units, rest'⟩, hread, hdone⟩ := Outcome.bind_eq_ok.1 h
  cases hdone
  obtain ⟨text, htext, hagain⟩ := readUnits_eq_ok hread
  exact ⟨text, htext, fun rest' => Outcome.bind_eq_ok.2 ⟨_, hagain _ rest', rfl⟩⟩

end Montage.Json
