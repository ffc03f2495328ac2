import Montage.Proofs.Json.Pieces

/-!
# What a reader takes

Every reader takes a part off the front of the text and looks at no more of it than how it goes on, so
that the same part is read in the same way wherever it stands. The fuel that is needed is a matter of
the part alone (`Takes`). So blanks around a document change nothing (`exists_brackets`).
-/

namespace Montage.Json

variable {cs rest : List Char} {v : Value} {fuel depth : Nat}

/-! ### Values -/

/-- No bracket or quote stands at the front. -/
def IsPlainHead (cs : List Char) : Prop := ∀ c ∈ cs.head?, c ≠ '"' ∧ c ≠ '\x7b' ∧ c ≠ '['

theorem head_cases (cs : List Char) : (∃ tail, cs = '"' :: tail) ∨ (∃ tail, cs = '\x7b' :: tail) ∨
    (∃ tail, cs = '[' :: tail) ∨ IsPlainHead cs := by
  cases cs with
  | nil => exact .inr (.inr (.inr fun c hc => nomatch hc))
  | cons c cs =>
    by_cases hquote : c = '"'
    · exact .inl ⟨cs, by rw [hquote]⟩
    · by_cases hbrace : c = '\x7b'
      · exact .inr (.inl ⟨cs, by rw [hbrace]⟩)
      · by_cases hbracket : c = '['
        · exact .inr (.inr (.inl ⟨cs, by rw [hbracket]⟩))
        · refine .inr (.inr (.inr fun d hd => ?_))
          obtain rfl : c = d := Option.some.inj hd
          exact ⟨hquote, hbrace, hbracket⟩

theorem readValue_quote : readValue (fuel + 1) depth ('"' :: cs) = .ok (v, rest) ↔
    ∃ s, readString cs = .ok (s, rest) ∧ .text s = v := by
  rw [readValue, Outcome.bind_eq_ok]
  constructor
  · rintro ⟨⟨s, rest⟩, hread, hdone⟩
    cases hdone
    exact ⟨s, hread, rfl⟩
  · rintro ⟨s, hread, rfl⟩
    exact ⟨_, hread, rfl⟩

theorem readValue_brace :
    readValue (fuel + 1) depth ('\x7b' :: cs) = readObject fuel depth (skipSpace cs) := by
  rw [readValue]

theorem readValue_bracket :
    readValue (fuel + 1) depth ('[' :: cs) = readArray fuel depth (skipSpace cs) := by
  rw [readValue]

theorem readValue_plain (h : IsPlainHead cs) : readValue (fuel + 1) depth cs = .ok (v, rest) ↔
    readWord? cs = some (v, rest) ∨ readWord? cs = none ∧ readNumber cs = .ok (v, rest) := by
  rw [readValue]
  · cases hword : readWord? cs with
    | none => simp
    | some r => simp
  · rintro tail rfl
    exact absurd rfl (h _ rfl).1
  · rintro tail rfl
    exact absurd rfl (h _ rfl).2.1
  · rintro tail rfl
    exact absurd rfl (h _ rfl).2.2

theorem readArray_eq_ok : readArray (fuel + 1) depth cs = .ok (v, rest) ↔
    ∃ deeper, depth = deeper + 1 ∧ (cs = ']' :: rest ∧ .list [] = v ∨
      (∀ tail, cs ≠ ']' :: tail) ∧ readItems fuel deeper [] cs = .ok (v, rest)) := by
  constructor
  · intro h
    obtain _ | deeper := depth
    · rw [readArray] at h
      · cases h
      · exact Nat.succ_ne_zero fuel
    · refine ⟨deeper, rfl, ?_⟩
      by_cases hend : ∃ tail, cs = ']' :: tail
      · obtain ⟨tail, rfl⟩ := hend
        rw [readArray] at h
        cases h
        exact .inl ⟨rfl, rfl⟩
      · have hne (tail : List Char) (htail : cs = ']' :: tail) : False := hend ⟨tail, htail⟩
        rw [readArray] at h
        · exact .inr ⟨hne, h⟩
        · exact hne
  · rintro ⟨deeper, rfl, ⟨rfl, rfl⟩ | ⟨hne, hread⟩⟩
    · rw [readArray]
    · rw [readArray]
      · exact hread
      · exact hne

theorem readItems_eq_ok {done : List Value} : readItems (fuel + 1) depth done cs = .ok (v, rest) ↔
    ∃ item tail, readValue fuel depth cs = .ok (item, tail) ∧
      (skipSpace tail = ']' :: rest ∧ .list (done ++ [item]) = v ∨
        ∃ more, skipSpace tail = ',' :: more ∧
          readItems fuel depth (done ++ [item]) (skipSpace more) = .ok (v, rest)) := by
  rw [readItems, Outcome.bind_eq_ok]
  constructor
  · rintro ⟨⟨item, tail⟩, hread, h⟩
    refine ⟨item, tail, hread, ?_⟩
    dsimp only at h
    split at h
    · rename_i hend
      cases h
      exact .inl ⟨hend, rfl⟩
    · rename_i hcomma
      exact .inr ⟨_, hcomma, h⟩
    · cases h
  · rintro ⟨item, tail, hread, h⟩
    refine ⟨_, hread, ?_⟩
    obtain ⟨hend, rfl⟩ | ⟨more, hcomma, hrest⟩ := h
    · simp only [hend]
      rfl
    · simp only [hcomma]
      exact hrest

theorem readObject_eq_ok : readObject (fuel + 1) depth cs = .ok (v, rest) ↔
    ∃ deeper, depth = deeper + 1 ∧ (cs = '\x7d' :: rest ∧ .mapping [] = v ∨
      (∀ tail, cs ≠ '\x7d' :: tail) ∧ readMembers fuel deeper [] cs = .ok (v, rest)) := by
  constructor
  · intro h
    obtain _ | deeper := depth
    · rw [readObject] at h
      · cases h
      · exact Nat.succ_ne_zero fuel
    · refine ⟨deeper, rfl, ?_⟩
      by_cases hend : ∃ tail, cs = '\x7d' :: tail
      · obtain ⟨tail, rfl⟩ := hend
        rw [readObject] at h
        cases h
        exact .inl ⟨rfl, rfl⟩
      · have hne (tail : List Char) (htail : cs = '\x7d' :: tail) : False := hend ⟨tail, htail⟩
        rw [readObject] at h
        · exact .inr ⟨hne, h⟩
        · exact hne
  · rintro ⟨deeper, rfl, ⟨rfl, rfl⟩ | ⟨hne, hread⟩⟩
    · rw [readObject]
    · rw [readObject]
      · exact hread
      · exact hne

theorem readMembers_eq_ok {done : List (Value × Value)} :
    readMembers (fuel + 1) depth done cs = .ok (v, rest) ↔
    ∃ name before item tail, (∃ more, cs = '"' :: more ∧ readString more = .ok (name, before)) ∧
      (∃ more, skipSpace before = ':' :: more ∧
        readValue fuel depth (skipSpace more) = .ok (item, tail)) ∧
      (skipSpace tail = '\x7d' :: rest ∧ .mapping (Value.insertEntry (.text name) item done) = v ∨
        ∃ more, skipSpace tail = ',' :: more ∧
          readMembers fuel depth (Value.insertEntry (.text name) item done) (skipSpace more) =
            .ok (v, rest)) := by
  constructor
  · intro h
    by_cases hquote : ∃ more, cs = '"' :: more
    · obtain ⟨more, rfl⟩ := hquote
      rw [readMembers] at h
      obtain ⟨⟨name, before⟩, hname, h⟩ := Outcome.bind_eq_ok.1 h
      dsimp only at h
      split at h
      · rename_i hcolon
        obtain ⟨⟨item, tail⟩, hread, h⟩ := Outcome.bind_eq_ok.1 h
        refine ⟨name, before, item, tail, ⟨_, rfl, hname⟩, ⟨_, hcolon, hread⟩, ?_⟩
        dsimp only at h
        split at h
        · rename_i hend
          cases h
          exact .inl ⟨hend, rfl⟩
        · rename_i hcomma
          exact .inr ⟨_, hcomma, h⟩
        · cases h
      · cases h
    · rw [readMembers] at h
      · cases h
      · exact fun more hmore => hquote ⟨more, hmore⟩
  · rintro ⟨name, before, item, tail, ⟨more, rfl, hname⟩, ⟨more', hcolon, hread⟩, h⟩
    rw [readMembers]
    refine Outcome.bind_eq_ok.2 ⟨_, hname, ?_⟩
    simp only [hcolon]
    refine Outcome.bind_eq_ok.2 ⟨_, hread, ?_⟩
    obtain ⟨hend, rfl⟩ | ⟨more, hcomma, hrest⟩ := h
    · simp only [hend]
      rfl
    · simp only [hcomma]
      exact hrest

/-! ### Parts of a text -/

theorem head?_append_cons {text : List Char} {c : Char} {rest' : List Char} :
    (text ++ c :: rest).head? = (text ++ c :: rest').head? := by
  cases text <;> rfl

/-- With so much fuel every reader takes a part of the text, and it takes the same part wherever it
stands, with fuel enough for the part. What is read inside of brackets ends at its bracket. -/
structure Takes (fuel : Nat) : Prop where
  value : ∀ {depth : Nat} {cs rest : List Char} {v : Value},
    readValue fuel depth cs = .ok (v, rest) → ∃ text, cs = text ++ rest ∧ text ≠ [] ∧
      ∀ rest', IsStop rest' → ∀ fuel', 3 * text.length ≤ fuel' →
        readValue fuel' depth (text ++ rest') = .ok (v, rest')
  array : ∀ {depth : Nat} {cs rest : List Char} {v : Value},
    readArray fuel depth cs = .ok (v, rest) → ∃ text, cs = text ++ ']' :: rest ∧
      ∀ rest' fuel', 3 * text.length + 2 ≤ fuel' →
        readArray fuel' depth (text ++ ']' :: rest') = .ok (v, rest')
  items : ∀ {depth : Nat} {done : List Value} {cs rest : List Char} {v : Value},
    readItems fuel depth done cs = .ok (v, rest) → ∃ text, cs = text ++ ']' :: rest ∧ text ≠ [] ∧
      ∀ rest' fuel', 3 * text.length + 1 ≤ fuel' →
        readItems fuel' depth done (text ++ ']' :: rest') = .ok (v, rest')
  object : ∀ {depth : Nat} {cs rest : List Char} {v : Value},
    readObject fuel depth cs = .ok (v, rest) → ∃ text, cs = text ++ '\x7d' :: rest ∧
      ∀ rest' fuel', 3 * text.length + 2 ≤ fuel' →
        readObject fuel' depth (text ++ '\x7d' :: rest') = .ok (v, rest')
  members : ∀ {depth : Nat} {done : List (Value × Value)} {cs rest : List Char} {v : Value},
    readMembers fuel depth done cs = .ok (v, rest) → ∃ text, cs = text ++ '\x7d' :: rest ∧
      text ≠ [] ∧ ∀ rest' fuel', 3 * text.length + 1 ≤ fuel' →
        readMembers fuel' depth done (text ++ '\x7d' :: rest') = .ok (v, rest')

/-- The blanks in front of a part that ends with a bracket. -/
theorem skipSpace_part {tail text : List Char} {c : Char} (h : skipSpace tail = text ++ c :: rest) :
    ∃ spaces, tail = spaces ++ text ++ c :: rest ∧
      ∀ rest', skipSpace (spaces ++ text ++ c :: rest') = text ++ c :: rest' := by
  obtain ⟨spaces, htail, -, hskip⟩ := exists_spaces tail
  rw [h] at htail hskip
  refine ⟨spaces, by rw [htail, List.append_assoc], fun rest' => ?_⟩
  rw [List.append_assoc]
  exact hskip _ head?_append_cons

theorem takes_bracket {close : Char} {read : Nat → List Char → Except Error (Value × List Char)}
    {text tail : List Char} (hclosed : skipSpace tail = text ++ close :: rest)
    (hagain : ∀ rest' fuel', 3 * text.length + 2 ≤ fuel' →
      read fuel' (text ++ close :: rest') = .ok (v, rest')) :
    ∃ text, tail = text ++ rest ∧ ∀ rest' fuel', 3 * text.length ≤ fuel' →
        read fuel' (skipSpace (text ++ rest')) = .ok (v, rest') := by
  obtain ⟨spaces, htail, hskip⟩ := skipSpace_part hclosed
  refine ⟨spaces ++ text ++ [close], by rw [htail]; simp, fun rest' fuel' hfuel => ?_⟩
  rw [List.append_assoc, List.singleton_append, hskip]
  apply hagain
  simp only [List.length_append, List.length_singleton] at hfuel
  omega

theorem isPlainHead_append {text rest' : List Char} (hne : text ≠ [])
    (h : IsPlainHead (text ++ rest)) : IsPlainHead (text ++ rest') := by
  obtain ⟨c, text, rfl⟩ := List.exists_cons_of_ne_nil hne
  exact h

theorem takes_value (ih : Takes fuel) (h : readValue (fuel + 1) depth cs = .ok (v, rest)) :
    ∃ text, cs = text ++ rest ∧ text ≠ [] ∧
      ∀ rest', IsStop rest' → ∀ fuel', 3 * text.length ≤ fuel' →
        readValue fuel' depth (text ++ rest') = .ok (v, rest') := by
  obtain ⟨tail, rfl⟩ | ⟨tail, rfl⟩ | ⟨tail, rfl⟩ | hplain := head_cases cs
  · obtain ⟨s, hread, rfl⟩ := readValue_quote.1 h
    obtain ⟨text, rfl, hagain⟩ := readString_eq_ok hread
    refine ⟨'"' :: (text ++ ['"']), by simp, List.cons_ne_nil _ _, fun rest' _ fuel' hfuel => ?_⟩
    obtain ⟨fuel', rfl⟩ : ∃ n, fuel' = n + 1 := ⟨fuel' - 1, by simp at hfuel; omega⟩
    exact readValue_quote.2 ⟨s, by simpa using hagain rest', rfl⟩
  · rw [readValue_brace] at h
    obtain ⟨text, hclosed, hagain⟩ := ih.object h
    obtain ⟨text, rfl, hagain⟩ := takes_bracket hclosed hagain
    refine ⟨'\x7b' :: text, rfl, List.cons_ne_nil _ _, fun rest' _ fuel' hfuel => ?_⟩
    rw [List.length_cons] at hfuel
    obtain ⟨fuel', rfl⟩ : ∃ n, fuel' = n + 1 := ⟨fuel' - 1, by omega⟩
    rw [List.cons_append, readValue_brace]
    exact hagain rest' fuel' (by omega)
  · rw [readValue_bracket] at h
    obtain ⟨text, hclosed, hagain⟩ := ih.array h
    obtain ⟨text, rfl, hagain⟩ := takes_bracket hclosed hagain
    refine ⟨'[' :: text, rfl, List.cons_ne_nil _ _, fun rest' _ fuel' hfuel => ?_⟩
    rw [List.length_cons] at hfuel
    obtain ⟨fuel', rfl⟩ : ∃ n, fuel' = n + 1 := ⟨fuel' - 1, by omega⟩
    rw [List.cons_append, readValue_bracket]
    exact hagain rest' fuel' (by omega)
  · obtain hword | ⟨-, hnumber⟩ := (readValue_plain hplain).1 h
    · obtain ⟨c, text, rfl, -, hagain⟩ := readWord?_eq_some hword
      refine ⟨c :: text, rfl, List.cons_ne_nil _ _, fun rest' _ fuel' hfuel => ?_⟩
      obtain ⟨fuel', rfl⟩ : ∃ n, fuel' = n + 1 := ⟨fuel' - 1, by simp at hfuel; omega⟩
      exact (readValue_plain (isPlainHead_append (List.cons_ne_nil _ _) hplain)).2 (.inl (hagain rest'))
    · obtain ⟨text, rfl, ⟨sign, c, more, rfl, hsign, hdigit⟩, -, hagain⟩ := readNumber_eq_ok hnumber
      have hne : sign ++ c :: more ≠ [] := by simp
      refine ⟨_, rfl, hne, fun rest' hrest' fuel' hfuel => ?_⟩
      obtain ⟨fuel', rfl⟩ : ∃ n, fuel' = n + 1 := ⟨fuel' - 1, by simp at hfuel; omega⟩
      have hword : readWord? (sign ++ c :: more ++ rest') = none := by
        rw [List.append_assoc]
        exact readWord?_number hsign hdigit
      exact (readValue_plain (isPlainHead_append hne hplain)).2 (.inr ⟨hword, hagain rest' hrest'⟩)

/-- A value inside of brackets, up to the closing one: behind it stands the bracket, or a comma and
what else is read. -/
theorem takes_entry (ih : Takes fuel) {item : Value} {tail : List Char} {close : Char}
    {found : Prop} (more : Nat → List Char → Except Error (Value × List Char))
    (hread : readValue fuel depth cs = .ok (item, tail)) (hclose : isStop close = true)
    (hmore : ∀ {cs}, more fuel cs = .ok (v, rest) → ∃ text, cs = text ++ close :: rest ∧ text ≠ [] ∧
      ∀ rest' fuel', 3 * text.length + 1 ≤ fuel' →
        more fuel' (text ++ close :: rest') = .ok (v, rest'))
    (hrest : skipSpace tail = close :: rest ∧ found ∨
      ∃ next, skipSpace tail = ',' :: next ∧ more fuel (skipSpace next) = .ok (v, rest)) :
    ∃ text, cs = text ++ close :: rest ∧ text ≠ [] ∧
      ∀ rest' fuel', 3 * text.length ≤ fuel' →
        ∃ tail', readValue fuel' depth (text ++ close :: rest') = .ok (item, tail') ∧
          (skipSpace tail' = close :: rest' ∧ found ∨
            ∃ next, skipSpace tail' = ',' :: next ∧
              more fuel' (skipSpace next) = .ok (v, rest')) := by
  obtain ⟨text, rfl, hne, hagain⟩ := ih.value hread
  obtain ⟨spaces, htail, hspaces, hskip⟩ := exists_spaces tail
  obtain ⟨hend, hfound⟩ | ⟨next, hcomma, hnext⟩ := hrest
  · rw [hend] at htail hskip
    refine ⟨text ++ spaces, by rw [htail, List.append_assoc], by simp [hne],
      fun rest' fuel' hfuel => ?_⟩
    rw [List.length_append] at hfuel
    rw [List.append_assoc]
    exact ⟨_, hagain _ (isStop_spaces hspaces hclose) fuel' (by omega), .inl ⟨hskip _ rfl, hfound⟩⟩
  · rw [hcomma] at htail hskip
    obtain ⟨entries, hclosed, -, hentries⟩ := hmore hnext
    obtain ⟨spaces', rfl, hskip'⟩ := skipSpace_part hclosed
    refine ⟨text ++ spaces ++ ',' :: (spaces' ++ entries), by rw [htail]; simp, by simp,
      fun rest' fuel' hfuel => ?_⟩
    simp only [List.length_append, List.length_cons] at hfuel
    rw [List.append_assoc, List.append_assoc]
    refine ⟨_, hagain _ (isStop_spaces hspaces rfl) fuel' (by omega), .inr ⟨_, hskip _ rfl, ?_⟩⟩
    rw [List.append_eq, hskip']
    exact hentries rest' fuel' (by omega)

theorem takes_items (ih : Takes fuel) {done : List Value}
    (h : readItems (fuel + 1) depth done cs = .ok (v, rest)) :
    ∃ text, cs = text ++ ']' :: rest ∧ text ≠ [] ∧ ∀ rest' fuel', 3 * text.length + 1 ≤ fuel' →
      readItems fuel' depth done (text ++ ']' :: rest') = .ok (v, rest') := by
  obtain ⟨item, tail, hread, hrest⟩ := readItems_eq_ok.1 h
  obtain ⟨text, rfl, hne, hagain⟩ :=
    takes_entry ih (fun fuel => readItems fuel depth (done ++ [item])) hread rfl ih.items hrest
  refine ⟨text, rfl, hne, fun rest' fuel' hfuel => ?_⟩
  obtain ⟨fuel', rfl⟩ : ∃ n, fuel' = n + 1 := ⟨fuel' - 1, by omega⟩
  exact readItems_eq_ok.2 ⟨item, hagain rest' fuel' (by omega)⟩

theorem takes_members (ih : Takes fuel) {done : List (Value × Value)}
    (h : readMembers (fuel + 1) depth done cs = .ok (v, rest)) :
    ∃ text, cs = text ++ '\x7d' :: rest ∧ text ≠ [] ∧
      ∀ rest' fuel', 3 * text.length + 1 ≤ fuel' →
        readMembers fuel' depth done (text ++ '\x7d' :: rest') = .ok (v, rest') := by
  obtain ⟨name, before, item, tail, ⟨named, rfl, hname⟩, ⟨valued, hcolon, hread⟩, hrest⟩ :=
    readMembers_eq_ok.1 h
  obtain ⟨quoted, rfl, hquoted⟩ := readString_eq_ok hname
  obtain ⟨spaces, hbefore, -, hskip⟩ := exists_spaces before
  rw [hcolon] at hbefore hskip
  obtain ⟨text, hvalued, -, hagain⟩ := takes_entry ih
    (fun fuel => readMembers fuel depth (Value.insertEntry (.text name) item done)) hread rfl
    ih.members hrest
  obtain ⟨spaces', rfl, hskip'⟩ := skipSpace_part hvalued
  refine ⟨'"' :: (quoted ++ '"' :: (spaces ++ ':' :: (spaces' ++ text))), by rw [hbefore]; simp,
    List.cons_ne_nil _ _, fun rest' fuel' hfuel => ?_⟩
  obtain ⟨fuel', rfl⟩ : ∃ n, fuel' = n + 1 := ⟨fuel' - 1, by omega⟩
  simp only [List.length_append, List.length_cons] at hfuel
  obtain ⟨tail', hread', hrest'⟩ := hagain rest' fuel' (by omega)
  rw [← hskip'] at hread'
  refine readMembers_eq_ok.2 ⟨name, spaces ++ ':' :: (spaces' ++ text ++ '\x7d' :: rest'), item, tail',
    ⟨_, rfl, ?_⟩, ⟨_, hskip _ rfl, hread'⟩, hrest'⟩
  simpa using hquoted (spaces ++ ':' :: (spaces' ++ text ++ '\x7d' :: rest'))

theorem takes_array (ih : Takes fuel) (h : readArray (fuel + 1) depth cs = .ok (v, rest)) :
    ∃ text, cs = text ++ ']' :: rest ∧ ∀ rest' fuel', 3 * text.length + 2 ≤ fuel' →
      readArray fuel' depth (text ++ ']' :: rest') = .ok (v, rest') := by
  obtain ⟨deeper, rfl, ⟨rfl, rfl⟩ | ⟨hne, hitems⟩⟩ := readArray_eq_ok.1 h
  · refine ⟨[], rfl, fun rest' fuel' hfuel => ?_⟩
    obtain ⟨fuel', rfl⟩ : ∃ n, fuel' = n + 1 := ⟨fuel' - 1, by omega⟩
    exact readArray_eq_ok.2 ⟨deeper, rfl, .inl ⟨rfl, rfl⟩⟩
  · obtain ⟨text, rfl, hsome, hagain⟩ := ih.items hitems
    refine ⟨text, rfl, fun rest' fuel' hfuel => ?_⟩
    obtain ⟨fuel', rfl⟩ : ∃ n, fuel' = n + 1 := ⟨fuel' - 1, by omega⟩
    refine readArray_eq_ok.2 ⟨deeper, rfl, .inr ⟨?_, hagain rest' fuel' (by omega)⟩⟩
    obtain ⟨c, text, rfl⟩ := List.exists_cons_of_ne_nil hsome
    intro tail htail
    exact hne _ (by rw [List.cons_append, (List.cons.inj htail).1])

theorem takes_object (ih : Takes fuel) (h : readObject (fuel + 1) depth cs = .ok (v, rest)) :
    ∃ text, cs = text ++ '\x7d' :: rest ∧ ∀ rest' fuel', 3 * text.length + 2 ≤ fuel' →
      readObject fuel' depth (text ++ '\x7d' :: rest') = .ok (v, rest') := by
  obtain ⟨deeper, rfl, ⟨rfl, rfl⟩ | ⟨hne, hmembers⟩⟩ := readObject_eq_ok.1 h
  · refine ⟨[], rfl, fun rest' fuel' hfuel => ?_⟩
    obtain ⟨fuel', rfl⟩ : ∃ n, fuel' = n + 1 := ⟨fuel' - 1, by omega⟩
    exact readObject_eq_ok.2 ⟨deeper, rfl, .inl ⟨rfl, rfl⟩⟩
  · obtain ⟨text, rfl, hsome, hagain⟩ := ih.members hmembers
    refine ⟨text, rfl, fun rest' fuel' hfuel => ?_⟩
    obtain ⟨fuel', rfl⟩ : ∃ n, fuel' = n + 1 := ⟨fuel' - 1, by omega⟩
    refine readObject_eq_ok.2 ⟨deeper, rfl, .inr ⟨?_, hagain rest' fuel' (by omega)⟩⟩
    obtain ⟨c, text, rfl⟩ := List.exists_cons_of_ne_nil hsome
    intro tail htail
    exact hne _ (by rw [List.cons_append, (List.cons.inj htail).1])

theorem takes (fuel : Nat) : Takes fuel := by
  induction fuel with
  | zero =>
    constructor
    all_goals
      intros
      rename_i h
      first
        | rw [readValue] at h
        | rw [readArray] at h
        | rw [readItems] at h
        | rw [readObject] at h
        | rw [readMembers] at h
      cases h
  | succ fuel ih =>
    exact ⟨takes_value ih, takes_array ih, takes_items ih, takes_object ih, takes_members ih⟩

/-! ### Documents -/

theorem readMembers_ne_list {done : List (Value × Value)} {items : List Value}
    (h : readMembers fuel depth done cs = .ok (v, rest)) : v ≠ .list items := by
  induction fuel generalizing done cs with
  | zero =>
    rw [readMembers] at h
    cases h
  | succ fuel ih =>
    obtain ⟨name, before, item, tail, -, -, ⟨-, rfl⟩ | ⟨more, -, hmore⟩⟩ := readMembers_eq_ok.1 h
    · exact Value.noConfusion
    · exact ih hmore

theorem readObject_ne_list {items : List Value} (h : readObject fuel depth cs = .ok (v, rest)) :
    v ≠ .list items := by
  cases fuel with
  | zero =>
    rw [readObject] at h
    cases h
  | succ fuel =>
    obtain ⟨deeper, -, ⟨-, rfl⟩ | ⟨-, hmembers⟩⟩ := readObject_eq_ok.1 h
    · exact Value.noConfusion
    · exact readMembers_ne_list hmembers

/-- Only an array begins with a bracket. -/
theorem exists_bracket {items : List Value} (h : readValue fuel depth cs = .ok (.list items, rest)) :
    ∃ tail, cs = '[' :: tail := by
  cases fuel with
  | zero =>
    rw [readValue] at h
    cases h
  | succ fuel =>
    obtain ⟨tail, rfl⟩ | ⟨tail, rfl⟩ | ⟨tail, rfl⟩ | hplain := head_cases cs
    · obtain ⟨s, -, hkind⟩ := readValue_quote.1 h
      cases hkind
    · rw [readValue_brace] at h
      exact absurd rfl (readObject_ne_list h)
    · exact ⟨tail, rfl⟩
    · obtain hword | ⟨-, hnumber⟩ := (readValue_plain hplain).1 h
      · obtain ⟨_, _, -, hkind, -⟩ := readWord?_eq_some hword
        exact absurd rfl (hkind items)
      · obtain ⟨_, -, -, hkind, -⟩ := readNumber_eq_ok hnumber
        exact absurd rfl (hkind items)

theorem readDocument_eq_ok : readDocument cs = .ok v ↔ cs.head? ≠ some '\ufeff' ∧
    ∃ tail, readValue (3 * cs.length + 3) maxDepth (skipSpace cs) = .ok (v, tail) ∧
      skipSpace tail = [] := by
  unfold readDocument
  by_cases hmark : cs.head? = some '\ufeff'
  · rw [if_pos hmark]
    exact ⟨fun h => (nomatch h), fun h => absurd hmark h.1⟩
  · rw [if_neg hmark, Outcome.bind_eq_ok]
    refine Iff.trans ?_ (and_iff_right hmark).symm
    constructor
    · rintro ⟨⟨v', tail⟩, hread, h⟩
      dsimp only at h
      split at h
      · rename_i hend
        cases h
        exact ⟨tail, hread, List.isEmpty_iff.1 hend⟩
      · cases h
    · rintro ⟨tail, hread, hend⟩
      refine ⟨_, hread, ?_⟩
      simp only [hend]
      rfl

/-- A document that is an array is the text from a bracket to a bracket, with blanks around it, and it
is the same without these blanks. -/
theorem exists_brackets {items : List Value} (h : readDocument cs = .ok (.list items)) :
    ∃ before text after, cs = before ++ '[' :: (text ++ ']' :: after) ∧
      (∀ c ∈ before, isSpace c = true) ∧ (∀ c ∈ after, isSpace c = true) ∧
      readDocument ('[' :: (text ++ [']'])) = .ok (.list items) := by
  obtain ⟨-, rest, hread, hend⟩ := readDocument_eq_ok.1 h
  obtain ⟨before, hbefore, hspaces, -⟩ := exists_spaces cs
  obtain ⟨after, hafter, hspaces', -⟩ := exists_spaces rest
  rw [hend, List.append_nil] at hafter
  obtain ⟨tail, htail⟩ := exists_bracket hread
  rw [htail] at hread hbefore
  rw [readValue_bracket] at hread
  obtain ⟨text, hclosed, hagain⟩ := (takes _).array hread
  obtain ⟨spaces, rfl, hskip⟩ := skipSpace_part hclosed
  refine ⟨before, spaces ++ text, after, by rw [hbefore, ← hafter], hspaces, hafter ▸ hspaces', ?_⟩
  refine readDocument_eq_ok.2 ⟨by simp, [], ?_, rfl⟩
  have hfront : skipSpace ('[' :: (spaces ++ text ++ [']'])) = '[' :: (spaces ++ text ++ [']']) := rfl
  rw [hfront, readValue_bracket, hskip]
  apply hagain
  simp only [List.length_cons, List.length_append]
  omega

end Montage.Json
