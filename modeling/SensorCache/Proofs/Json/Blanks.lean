import SensorCache.Proofs.Json.Values

/-!
# Blanks behind a value

Reading goes from the front, so blanks behind a text are met last: by a reader that needs more
characters, which finds that none of them will do, or by nobody. Each reader therefore takes the
same off a text with blanks behind it as off the text alone and leaves the blanks with the rest
(`followedBy`), and the blanks a whole text ends with are passed over (`parse?_append_spaces`).

The readers of values, elements and members call each other on what is left after blanks. They are
first brought into a form in which every such turn is one `afterSpace`, and then taken together, by
induction on how long a text they are given.
-/

namespace SensorCache.Json

variable {w : List Char} {α β : Type}

/-- A text of nothing but JSON's blanks. -/
abbrev Spaces (w : List Char) : Prop := ∀ c ∈ w, isSpace c = true

theorem Spaces.tail {c : Char} {r : List Char} (h : Spaces (c :: r)) : Spaces r :=
  fun d hd => h d (List.mem_cons_of_mem c hd)

theorem eq_of_isSpace {c : Char} (h : isSpace c = true) :
    c = ' ' ∨ c = '\n' ∨ c = '\r' ∨ c = '\t' := by
  simpa [isSpace, or_assoc] using h

theorem skipSpace_spaces (hw : Spaces w) : skipSpace w = [] := by
  induction w with
  | nil => rfl
  | cons c w ih =>
    rw [skipSpace, List.dropWhile_cons_of_pos (hw c List.mem_cons_self)]
    exact ih hw.tail

/-- What is left after blanks is left with `w` behind it, unless nothing is left. -/
theorem skipSpace_append (hw : Spaces w) (s : List Char) :
    (skipSpace s = [] ∧ skipSpace (s ++ w) = []) ∨
      ∃ c r, skipSpace s = c :: r ∧ skipSpace (s ++ w) = c :: (r ++ w) := by
  have happend : skipSpace (s ++ w) = if skipSpace s = [] then [] else skipSpace s ++ w := by
    unfold skipSpace
    rw [List.dropWhile_append]
    simp only [List.isEmpty_iff]
    split
    · exact skipSpace_spaces hw
    · rfl
  cases hs : skipSpace s with
  | nil => exact .inl ⟨rfl, by rw [happend, if_pos hs]⟩
  | cons c r => exact .inr ⟨c, r, rfl, by rw [happend, if_neg (by simp [hs]), hs, List.cons_append]⟩

/-- What was read, with `w` behind what is left. -/
def followedBy (w : List Char) (r : Option (α × List Char)) : Option (α × List Char) :=
  r.map fun (a, rest) => (a, rest ++ w)

@[simp] theorem followedBy_none : followedBy w (none : Option (α × List Char)) = none := rfl

@[simp] theorem followedBy_some (a : α) (rest : List Char) :
    followedBy w (some (a, rest)) = some (a, rest ++ w) := rfl

/-- Making something of what was read does not touch what is left. -/
theorem map_followedBy (f : α → β) (r : Option (α × List Char)) :
    (followedBy w r).map (fun (a, rest) => (f a, rest)) =
      followedBy w (r.map fun (a, rest) => (f a, rest)) := by
  cases r <;> rfl

/-- What goes on alike with and without `w` behind what is left does so after any reading. -/
theorem followedBy_bind {r : Option (α × List Char)} {f g : α × List Char → Option (β × List Char)}
    (h : ∀ a rest, f (a, rest ++ w) = followedBy w (g (a, rest))) :
    (followedBy w r).bind f = followedBy w (r.bind g) := by
  cases r with
  | none => rfl
  | some x => exact h x.1 x.2

/-! ## Strings -/

theorem readPieces_spaces (hw : Spaces w) : readPieces w = none := by
  induction w with
  | nil => rfl
  | cons c w ih =>
    have hrest := ih hw.tail
    rcases eq_of_isSpace (hw c List.mem_cons_self) with rfl | rfl | rfl | rfl
    · rw [readPieces_plain (by decide) (by decide) (by decide), hrest]
      rfl
    all_goals
      rw [readPieces]
      · rfl
      all_goals simp

theorem hexUnit?_space (a b c : Char) {d : Char} (h : isSpace d = true) :
    hexUnit? a b c d = none := by
  have hd : Text.hexValue? d = none := by
    rcases eq_of_isSpace h with rfl | rfl | rfl | rfl <;> decide
  simp [hexUnit?, hd]

theorem shortEscape?_space {c : Char} (h : isSpace c = true) : shortEscape? c = none := by
  rcases eq_of_isSpace h with rfl | rfl | rfl | rfl <;> decide

/-- A unit that is cut off by the end of the text is no unit with blanks there either. -/
theorem readPieces_cutUnit (hw : Spaces w) {r : List Char}
    (hr : ∀ a b c d t, r ≠ a :: b :: c :: d :: t) :
    readPieces ('\\' :: 'u' :: (r ++ w)) = none := by
  have hshort : r.length < 4 := by
    match r, hr with
    | [], _ | [_], _ | [_, _], _ | [_, _, _], _ => simp
    | a :: b :: c :: d :: t, hr => exact absurd rfl (hr a b c d t)
  generalize ht : r ++ w = t
  match t with
  | a :: b :: c :: d :: t =>
    have hd : (r ++ w)[3]? = some d := by rw [ht]; rfl
    rw [List.getElem?_append_right (by omega)] at hd
    rw [readPieces, hexUnit?_space a b c (hw d (List.mem_of_getElem? hd))]
    rfl
  | [] | [_] | [_, _] | [_, _, _] => rfl

theorem readPieces_cutEscape (hw : Spaces w) : readPieces ('\\' :: w) = none := by
  cases w with
  | nil => rfl
  | cons d w =>
    have hd := hw d List.mem_cons_self
    rw [readPieces, shortEscape?_space hd]
    · rfl
    · rintro _ _ _ _ _ rfl
      cases hd

theorem readPieces_append (hw : Spaces w) (s : List Char) :
    readPieces (s ++ w) = followedBy w (readPieces s) := by
  fun_induction readPieces s with
  | case1 => exact readPieces_spaces hw
  | case2 => rfl
  | case3 a b c d r ih =>
    simp only [List.cons_append]
    rw [readPieces, ih]
    cases hexUnit? a b c d <;> cases readPieces r <;> rfl
  | case4 e r hu ih =>
    by_cases he : e = 'u'
    · subst he
      exact readPieces_cutUnit hw fun a b c d t => hu a b c d t rfl
    · simp only [List.cons_append]
      rw [readPieces, ih]
      · cases shortEscape? e <;> cases readPieces r <;> rfl
      · exact fun _ _ _ _ _ h => absurd h he
  | case5 c r hq hu hb hc =>
    by_cases hback : c = '\\'
    · subst hback
      cases r with
      | nil => exact readPieces_cutEscape hw
      | cons e t => exact absurd rfl (hb e t rfl)
    · have hlow : c.toNat < 32 := by simpa [hback] using hc
      rw [List.cons_append, readPieces, if_pos (by simp [hlow])]
      · rfl
      · exact hq
      · exact fun _ _ _ _ _ h => absurd h hback
      · exact fun _ _ h => absurd h hback
  | case6 c r hq hu hb hc ih =>
    obtain ⟨hlow, hback⟩ : ¬c.toNat < 32 ∧ c ≠ '\\' := by simpa using hc
    rw [List.cons_append, readPieces_plain hq hback hlow, ih]
    cases readPieces r <;> rfl

theorem readString_append (hw : Spaces w) (s : List Char) :
    readString (s ++ w) = followedBy w (readString s) := by
  rw [readString, readPieces_append hw, readString]
  exact map_followedBy joinPieces _

/-! ## Numbers -/

theorem numberEnds_spaces (hw : Spaces w) : NumberEnds w := by
  cases w with
  | nil => exact numberEnds_nil
  | cons c w =>
    refine numberEnds_cons ?_ w
    rcases eq_of_isSpace (hw c List.mem_cons_self) with rfl | rfl | rfl | rfl <;> decide

theorem readDigits_append_spaces (hw : Spaces w) (s : List Char) :
    readDigits (s ++ w) = ((readDigits s).1, (readDigits s).2 ++ w) := by
  induction s with
  | nil =>
    have hno : ∀ d ∈ ([] : List Nat), d < 10 := fun _ h => nomatch h
    exact readDigits_append hno fun c hc => (numberEnds_spaces hw c hc).1
  | cons c s ih =>
    simp only [readDigits] at ih ⊢
    simp only [List.cons_append, List.takeWhile_cons, List.dropWhile_cons]
    split
    · simp only [List.map_cons, Prod.mk.injEq, List.cons.injEq, true_and] at ih ⊢
      exact ih
    · rfl

theorem readWhole_append_spaces (hw : Spaces w) (s : List Char) :
    readWhole (s ++ w) = followedBy w (readWhole s) := by
  rw [readWhole, readWhole, readDigits_append_spaces hw]
  rcases readDigits s with ⟨ds, r⟩
  cases ds with
  | nil => rfl
  | cons d more =>
    cases d with
    | zero => cases more <;> rfl
    | succ n => rfl

theorem readFraction_append (hw : Spaces w) (s : List Char) :
    readFraction (s ++ w) = followedBy w (readFraction s) := by
  cases s with
  | nil =>
    have hno : ∀ f ∈ (none : Option (List Nat)), Numeral.Digits f := fun _ h => nomatch h
    exact readFraction_chars hno fun c hc =>
      ⟨(numberEnds_spaces hw c hc).1, (numberEnds_spaces hw c hc).2.1⟩
  | cons c r =>
    by_cases hc : c = '.'
    · subst hc
      rw [List.cons_append, readFraction, readFraction, readDigits_append_spaces hw]
      rcases readDigits r with ⟨ds, rest⟩
      cases ds <;> rfl
    · rw [List.cons_append, readFraction, readFraction]
      · rfl
      · exact fun _ h => hc (List.cons.inj h).1
      · exact fun _ h => hc (List.cons.inj h).1

theorem readExponentDigits_append (hw : Spaces w) (down : Bool) (s : List Char) :
    readExponentDigits down (s ++ w) = followedBy w (readExponentDigits down s) := by
  rw [readExponentDigits, readExponentDigits, readDigits_append_spaces hw]
  rcases readDigits s with ⟨ds, rest⟩
  cases ds <;> rfl

theorem readExponent_append (hw : Spaces w) (s : List Char) :
    readExponent (s ++ w) = followedBy w (readExponent s) := by
  have hdigits := readExponentDigits_append hw
  cases s with
  | nil => exact readExponent_none (numberEnds_spaces hw)
  | cons c r =>
    unfold readExponent
    dsimp only [List.cons_append]
    split
    · cases r with
      | nil =>
        have hsign : ∀ d t, isSpace d = false → w ≠ d :: t := by
          rintro d t hd rfl
          rw [hw d List.mem_cons_self] at hd
          cases hd
        split
        · next h => exact absurd h (hsign _ _ (by decide))
        · next h => exact absurd h (hsign _ _ (by decide))
        · exact hdigits false []
      | cons d t =>
        by_cases hplus : d = '+'
        · subst hplus
          exact hdigits false t
        · by_cases hminus : d = '-'
          · subst hminus
            exact hdigits true t
          · split
            · next h => exact absurd (List.cons.inj h).1 hplus
            · next h => exact absurd (List.cons.inj h).1 hminus
            · split
              · next h => exact absurd (List.cons.inj h).1 hplus
              · next h => exact absurd (List.cons.inj h).1 hminus
              · exact hdigits false (d :: t)
    · rfl

theorem readMagnitude_append (hw : Spaces w) (negative : Bool) (s : List Char) :
    readMagnitude negative (s ++ w) = followedBy w (readMagnitude negative s) := by
  rw [readMagnitude, readWhole_append_spaces hw]
  refine followedBy_bind fun whole s => ?_
  dsimp only
  rw [readFraction_append hw]
  refine followedBy_bind fun fraction s => ?_
  dsimp only
  rw [readExponent_append hw]
  exact followedBy_bind fun exponent s => rfl

theorem readNumber_append (hw : Spaces w) (s : List Char) :
    readNumber (s ++ w) = followedBy w (readNumber s) := by
  cases s with
  | nil =>
    unfold readNumber
    split
    · next h => cases hw '-' (by rw [← List.nil_append w, h]; exact List.mem_cons_self)
    · exact readMagnitude_append hw false []
  | cons c r =>
    by_cases hc : c = '-'
    · subst hc
      exact readMagnitude_append hw true r
    · rw [List.cons_append, readNumber, readNumber]
      · exact readMagnitude_append hw false (c :: r)
      · exact fun _ h => hc (List.cons.inj h).1
      · exact fun _ h => hc (List.cons.inj h).1

/-! ## Literal names and turns after blanks -/

/-- A text without blanks that begins another with `w` behind it begins it without, too. -/
theorem exists_of_append_eq (hw : Spaces w) (u : List Char) (hu : u.any isSpace = false)
    {s r : List Char} (h : s ++ w = u ++ r) : ∃ t, s = u ++ t ∧ r = t ++ w := by
  induction u generalizing s with
  | nil => exact ⟨s, rfl, h.symm⟩
  | cons c u ih =>
    rw [List.any_cons, Bool.or_eq_false_iff] at hu
    cases s with
    | nil =>
      have hc := hw c (by rw [← List.nil_append w, h]; exact List.mem_cons_self)
      rw [hu.1] at hc
      cases hc
    | cons d s =>
      obtain ⟨rfl, htail⟩ := List.cons.inj h
      obtain ⟨t, rfl, rfl⟩ := ih hu.2 htail
      exact ⟨t, rfl, rfl⟩

theorem readWord_append (hw : Spaces w) (s : List Char) :
    readWord (s ++ w) = followedBy w (readWord s) := by
  by_cases hs : readWord s = none
  · rw [hs]
    unfold readWord at hs ⊢
    split
    · next h =>
      obtain ⟨t, rfl, rfl⟩ := exists_of_append_eq hw ['t', 'r', 'u', 'e'] (by decide) h
      cases hs
    · next h =>
      obtain ⟨t, rfl, rfl⟩ := exists_of_append_eq hw ['f', 'a', 'l', 's', 'e'] (by decide) h
      cases hs
    · next h =>
      obtain ⟨t, rfl, rfl⟩ := exists_of_append_eq hw ['n', 'u', 'l', 'l'] (by decide) h
      cases hs
    · rfl
  · unfold readWord at hs
    split at hs
    · rfl
    · rfl
    · rfl
    · exact absurd rfl hs

theorem readValue_spaces (hw : Spaces w) : readValue w = none := by
  cases w with
  | nil => rw [readValue]
  | cons c w =>
    rcases eq_of_isSpace (hw c List.mem_cons_self) with rfl | rfl | rfl | rfl <;>
    · rw [readValue, if_neg (by decide)] <;> simp [readWord]

/-- Goes on with the first character that is no blank, if there is one, and what follows it. -/
def afterSpace (s : List Char) (f : Char → List Char → Option β) : Option β :=
  match skipSpace s with
  | [] => none
  | c :: r => f c r

theorem afterSpace_append (hw : Spaces w) {f g : Char → List Char → Option (β × List Char)}
    {s : List Char} (h : ∀ c r, skipSpace s = c :: r → f c (r ++ w) = followedBy w (g c r)) :
    afterSpace (s ++ w) f = followedBy w (afterSpace s g) := by
  unfold afterSpace
  rcases skipSpace_append hw s with ⟨hs, hsw⟩ | ⟨c, r, hs, hsw⟩
  · rw [hs, hsw]
    rfl
  · rw [hs, hsw]
    exact h c r hs

theorem readElements_nil : readElements [] = none := by
  rw [readElements, readValue]

theorem readMembers_of_not_quote {s : List Char} (h : ∀ r, s ≠ '"' :: r) :
    readMembers s = none := by
  rw [readMembers]
  exact h

theorem length_skipSpace_le (s : List Char) : (skipSpace s).length ≤ s.length :=
  (List.dropWhile_sublist isSpace).length_le

/-- An array is its closing bracket at once or its elements, after blanks. -/
theorem readValue_bracket (r : List Char) :
    readValue ('[' :: r) = afterSpace r fun c t =>
      if c = ']' then some (.array [], t)
      else (readElements (c :: t)).map fun (es, rest) => (.array es, rest) := by
  have hlen := length_skipSpace_le r
  rw [readValue, afterSpace]
  cases hr : skipSpace r with
  | nil => simp [readElements_nil]
  | cons c t =>
    rw [hr] at hlen
    by_cases hc : c = ']'
    · subst hc
      rfl
    · dsimp only
      rw [if_neg hc]
      split
      · next h => exact absurd (List.cons.inj h).1 hc
      · exact if_pos hlen

/-- An object is its closing brace at once or its members, after blanks. -/
theorem readValue_brace (r : List Char) :
    readValue ('\x7b' :: r) = afterSpace r fun c t =>
      if c = '\x7d' then some (.object [], t)
      else (readMembers (c :: t)).map fun (ms, rest) => (.object ms, rest) := by
  have hlen := length_skipSpace_le r
  rw [readValue, afterSpace]
  cases hr : skipSpace r with
  | nil => simp [readMembers_of_not_quote]
  | cons c t =>
    rw [hr] at hlen
    by_cases hc : c = '\x7d'
    · subst hc
      rfl
    · dsimp only
      rw [if_neg hc]
      split
      · next h => exact absurd (List.cons.inj h).1 hc
      · exact if_pos hlen

/-- Elements are a value and, after blanks, the closing bracket or a comma and more of them. -/
theorem readElements_eq (s : List Char) :
    readElements s = (readValue s).bind fun (v, r) => afterSpace r fun c t =>
      if c = ']' then some ([v], t)
      else if c = ',' then
        afterSpace t fun d u =>
          if (d :: u).length < s.length then
            (readElements (d :: u)).map fun (vs, rest) => (v :: vs, rest)
          else none
      else none := by
  rw [readElements]
  cases readValue s with
  | none => rfl
  | some x =>
    obtain ⟨v, r⟩ := x
    dsimp only [Option.bind_some]
    rw [afterSpace]
    cases skipSpace r with
    | nil => rfl
    | cons c t =>
      by_cases hc : c = ']'
      · subst hc
        rfl
      · dsimp only
        rw [if_neg hc]
        split
        · next h => exact absurd (List.cons.inj h).1 hc
        · next h =>
          cases h
          rw [if_pos rfl, afterSpace]
          cases skipSpace t with
          | nil => simp [readElements_nil]
          | cons d u => rfl
        · next h => rw [if_neg fun hcomma => h t (by rw [hcomma])]

/-- Members are a name, a colon and a value, and then the closing brace or a comma and more of
them, each after blanks. -/
theorem readMembers_quote (body : List Char) :
    readMembers ('"' :: body) = (readString body).bind fun (k, r) => afterSpace r fun c t =>
      if c = ':' then
        afterSpace t fun d u =>
          if (d :: u).length ≤ body.length then
            (readValue (d :: u)).bind fun (v, r) => afterSpace r fun e t =>
              if e = '\x7d' then some ([(k, v)], t)
              else if e = ',' then
                afterSpace t fun g u =>
                  if (g :: u).length ≤ body.length then
                    (readMembers (g :: u)).map fun (ms, rest) => ((k, v) :: ms, rest)
                  else none
              else none
          else none
      else none := by
  rw [readMembers]
  cases readString body with
  | none => rfl
  | some x =>
    obtain ⟨k, r⟩ := x
    dsimp only [Option.bind_some]
    rw [afterSpace]
    cases skipSpace r with
    | nil => rfl
    | cons c t =>
      dsimp only
      split
      · next h =>
        cases h
        rw [if_pos rfl, afterSpace]
        cases skipSpace t with
        | nil => simp [readValue]
        | cons d u =>
          dsimp only
          refine if_congr Iff.rfl ?_ rfl
          cases readValue (d :: u) with
          | none => rfl
          | some x =>
            obtain ⟨v, r⟩ := x
            dsimp only [Option.bind_some]
            rw [afterSpace]
            cases skipSpace r with
            | nil => rfl
            | cons e t =>
              dsimp only
              split
              · next h =>
                cases h
                rfl
              · next h =>
                cases h
                have hne : ',' ≠ '\x7d' := by decide
                rw [if_neg hne, if_pos rfl, afterSpace]
                cases skipSpace t with
                | nil => simp [readMembers_of_not_quote]
                | cons g u => rfl
              · next hclose hcomma =>
                rw [if_neg fun h => hclose t (by rw [h]), if_neg fun h => hcomma t (by rw [h])]
      · next h => rw [if_neg fun hcolon => h t (by rw [hcolon])]

/-! ## Values -/

/-- On texts of at most `n` characters, what is read does not depend on `w` being behind. -/
def ReadsAlike (read : List Char → Option (α × List Char)) (w : List Char) (n : Nat) : Prop :=
  ∀ s, s.length ≤ n → read (s ++ w) = followedBy w (read s)

theorem readValue_append_step (hw : Spaces w) {n : Nat} (helements : ReadsAlike readElements w n)
    (hmembers : ReadsAlike readMembers w n) : ReadsAlike readValue w (n + 1) := by
  intro s hs
  cases s with
  | nil =>
    rw [List.nil_append, readValue_spaces hw, readValue]
    rfl
  | cons c r =>
    have hr : r.length ≤ n := Nat.le_of_succ_le_succ hs
    have hrest : ∀ {d u}, skipSpace r = d :: u → (d :: u).length ≤ n := fun h =>
      h ▸ Nat.le_trans (length_skipSpace_le r) hr
    rw [List.cons_append]
    by_cases hquote : c = '"'
    · subst hquote
      rw [readValue, readValue, readString_append hw]
      exact map_followedBy Json.string _
    by_cases hbracket : c = '['
    · subst hbracket
      rw [readValue_bracket, readValue_bracket]
      refine afterSpace_append hw fun d u hdu => ?_
      split
      · rfl
      · rw [← List.cons_append, helements _ (hrest hdu)]
        exact map_followedBy Json.array _
    by_cases hbrace : c = '\x7b'
    · subst hbrace
      rw [readValue_brace, readValue_brace]
      refine afterSpace_append hw fun d u hdu => ?_
      split
      · rfl
      · rw [← List.cons_append, hmembers _ (hrest hdu)]
        exact map_followedBy Json.object _
    rw [readValue, readValue]
    · split
      · rw [← List.cons_append, readNumber_append hw]
        exact map_followedBy Json.number _
      · exact readWord_append hw (c :: r)
    all_goals simp_all

theorem readElements_append_step (hw : Spaces w) {n : Nat}
    (hvalue : ReadsAlike readValue w (n + 1)) (helements : ReadsAlike readElements w n) :
    ReadsAlike readElements w (n + 1) := by
  intro s hs
  rw [readElements_eq, readElements_eq, hvalue s hs]
  refine followedBy_bind fun v r => ?_
  refine afterSpace_append hw fun c t _ => ?_
  split
  · rfl
  split
  · refine afterSpace_append hw fun d u _ => ?_
    rw [← List.cons_append, List.length_append, List.length_append,
      if_congr Nat.add_lt_add_iff_right rfl rfl]
    split
    · next hlt =>
      rw [helements _ (by omega)]
      exact map_followedBy (v :: ·) _
    · rfl
  · rfl

theorem readMembers_append_step (hw : Spaces w) {n : Nat} (hvalue : ReadsAlike readValue w n)
    (hmembers : ReadsAlike readMembers w n) : ReadsAlike readMembers w (n + 1) := by
  intro s hs
  by_cases hquote : ∃ body, s = '"' :: body
  · obtain ⟨body, rfl⟩ := hquote
    have hbody : body.length ≤ n := Nat.le_of_succ_le_succ hs
    rw [List.cons_append, readMembers_quote, readMembers_quote, readString_append hw]
    refine followedBy_bind fun k r => ?_
    refine afterSpace_append hw fun c t _ => ?_
    split
    · refine afterSpace_append hw fun d u _ => ?_
      rw [← List.cons_append, List.length_append, List.length_append,
        if_congr Nat.add_le_add_iff_right rfl rfl]
      split
      · next hle =>
        rw [hvalue _ (Nat.le_trans hle hbody)]
        refine followedBy_bind fun v r => ?_
        refine afterSpace_append hw fun e t _ => ?_
        split
        · rfl
        split
        · refine afterSpace_append hw fun g u _ => ?_
          rw [← List.cons_append, List.length_append, if_congr Nat.add_le_add_iff_right rfl rfl]
          split
          · next hle =>
            rw [hmembers _ (Nat.le_trans hle hbody)]
            exact map_followedBy ((k, v) :: ·) _
          · rfl
        · rfl
      · rfl
    · rfl
  · have hshort : ∀ r, s ≠ '"' :: r := fun r h => hquote ⟨r, h⟩
    rw [readMembers_of_not_quote hshort, readMembers_of_not_quote]
    · rfl
    · rintro r h
      obtain ⟨t, rfl, -⟩ := exists_of_append_eq hw ['"'] (by decide) h
      exact hshort t rfl

theorem readsAlike (hw : Spaces w) (n : Nat) :
    ReadsAlike readValue w n ∧ ReadsAlike readElements w n ∧ ReadsAlike readMembers w n := by
  induction n with
  | zero =>
    have hnil : ∀ s : List Char, s.length ≤ 0 → s = [] := fun s h =>
      List.length_eq_zero_iff.1 (Nat.le_zero.1 h)
    have hspaces : ∀ r, w ≠ '"' :: r := by
      rintro r rfl
      cases hw '"' List.mem_cons_self
    refine ⟨fun s hs => ?_, fun s hs => ?_, fun s hs => ?_⟩ <;> rw [hnil s hs, List.nil_append]
    · rw [readValue_spaces hw, readValue]
      rfl
    · rw [readElements_nil, readElements, readValue_spaces hw]
      rfl
    · rw [readMembers_of_not_quote hspaces, readMembers_of_not_quote (by simp)]
      rfl
  | succ n ih =>
    obtain ⟨hvalue, helements, hmembers⟩ := ih
    have hvalue' := readValue_append_step hw helements hmembers
    exact ⟨hvalue', readElements_append_step hw hvalue' helements,
      readMembers_append_step hw hvalue hmembers⟩

/-- Blanks behind a text do not change whether it is a value, nor which. -/
theorem parse?_append_spaces (hw : Spaces w) (s : List Char) : parse? (s ++ w) = parse? s := by
  unfold parse?
  rcases skipSpace_append hw s with ⟨hs, hsw⟩ | ⟨c, r, hs, hsw⟩
  · rw [hs, hsw]
  · rw [hs, hsw, ← List.cons_append, (readsAlike hw _).1 _ (Nat.le_refl _)]
    cases readValue (c :: r) with
    | none => rfl
    | some x =>
      obtain ⟨v, rest⟩ := x
      rw [followedBy_some]
      have hend : (skipSpace (rest ++ w)).isEmpty = (skipSpace rest).isEmpty := by
        rcases skipSpace_append hw rest with ⟨hx, hxw⟩ | ⟨d, u, hx, hxw⟩ <;>
          simp [hx, hxw]
      dsimp only
      rw [hend]

end SensorCache.Json
