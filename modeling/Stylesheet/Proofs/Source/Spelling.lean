import Stylesheet.Source.Scan

/-! How the small lexical forms are spelled. What is scanned is spelled so, and what is spelled so
is scanned again, whatever stands behind it. -/

namespace Stylesheet.Scan

/-- Name characters and escaped characters. -/
inductive NameTail : List Char → Prop where
  | nil : NameTail []
  | char (isName : isNameChar c = true) (rest : NameTail w) : NameTail (c :: w)
  | escape (c : Char) (rest : NameTail w) : NameTail ('\\' :: c :: w)

/-- What an identifier is without its hyphen. -/
inductive IdentBody : List Char → Prop where
  | start (isStart : isNameStart c = true) (rest : NameTail w) : IdentBody (c :: w)
  | escape (c : Char) (rest : NameTail w) : IdentBody ('\\' :: c :: w)

inductive Ident : List Char → Prop where
  | plain (body : IdentBody w) : Ident w
  | hyphen (body : IdentBody w) : Ident ('-' :: w)

/-- At least one name character or escape. -/
def Name (w : List Char) : Prop :=
  NameTail w ∧ w ≠ []

attribute [local simp] nameTail identBody? ident?

theorem NameTail.of_all {w : List Char} (all : ∀ c ∈ w, isNameChar c = true) : NameTail w := by
  induction w with
  | nil => exact .nil
  | cons c w ih =>
    exact .char (all c List.mem_cons_self) (ih fun d member => all d (List.mem_cons_of_mem c member))

theorem nameTail_escape (c : Char) (rest : List Char) :
    nameTail ('\\' :: c :: rest) = nameTail rest + 2 := by
  simp

theorem nameTail_char {c : Char} (isName : isNameChar c = true) (rest : List Char) :
    nameTail (c :: rest) = nameTail rest + 1 := by
  have plain : c ≠ '\\' := by
    rintro rfl
    exact absurd isName (by decide)
  rw [nameTail.eq_2 _ _ (fun _ _ same => absurd same plain), if_pos isName]

/-- A character that no name goes on with. -/
theorem nameTail_stop {c : Char} (isName : isNameChar c = false) (plain : c ≠ '\\')
    (rest : List Char) : nameTail (c :: rest) = 0 := by
  rw [nameTail.eq_2 _ _ (fun _ _ same => absurd same plain), isName]
  rfl

theorem nameTail_append {w : List Char} (spelled : NameTail w) (rest : List Char) :
    nameTail (w ++ rest) = w.length + nameTail rest := by
  induction spelled with
  | nil => simp
  | char isName _ ih =>
    rw [List.cons_append, nameTail_char isName, ih, List.length_cons]
    omega
  | escape c _ ih =>
    rw [List.cons_append, List.cons_append, nameTail_escape, ih]
    simp only [List.length_cons]
    omega

/-- What is scanned as the end of a name is one. -/
theorem nameTail_take (text : List Char) :
    NameTail (text.take (nameTail text)) ∧ nameTail text ≤ text.length := by
  fun_induction nameTail text with
  | case1 c rest ih => exact ⟨.escape c ih.1, by simpa using ih.2⟩
  | case2 c rest plain isName ih => exact ⟨.char isName ih.1, by simpa using ih.2⟩
  | case3 c rest plain notName => exact ⟨.nil, by simp⟩
  | case4 => exact ⟨.nil, by simp⟩

theorem identBody?_append {w : List Char} (spelled : IdentBody w) {rest : List Char}
    (stop : nameTail rest = 0) : identBody? (w ++ rest) = some w.length := by
  cases spelled with
  | start isStart tail =>
    rename_i c w
    have plain : c ≠ '\\' := by
      rintro rfl
      exact absurd isStart (by decide)
    rw [List.cons_append, identBody?.eq_2 _ _ (fun _ _ same => absurd same plain), if_pos isStart,
      nameTail_append tail, stop]
    rfl
  | escape c tail =>
    rw [List.cons_append, List.cons_append, identBody?, nameTail_append tail, stop]
    rfl

theorem identBody?_take {text : List Char} {count : Nat} (found : identBody? text = some count) :
    IdentBody (text.take count) ∧ count ≤ text.length := by
  fun_cases identBody? text with
  | case1 c rest =>
    rw [identBody?] at found
    cases found
    have tail := nameTail_take rest
    exact ⟨.escape c tail.1, by simpa using tail.2⟩
  | case2 c rest plain isStart =>
    rw [identBody?.eq_2 _ _ plain, if_pos isStart] at found
    cases found
    have tail := nameTail_take rest
    exact ⟨.start isStart tail.1, by simpa using tail.2⟩
  | case3 c rest plain notStart =>
    rw [identBody?.eq_2 _ _ plain, if_neg notStart] at found
    cases found
  | case4 => cases found

theorem ident?_append {w : List Char} (spelled : Ident w) {rest : List Char}
    (stop : nameTail rest = 0) : ident? (w ++ rest) = some w.length := by
  cases spelled with
  | hyphen body =>
    rw [List.cons_append, ident?, identBody?_append body stop]
    rfl
  | plain body =>
    have noHyphen : ∀ more, w ++ rest ≠ '-' :: more := by
      intro more same
      cases body with
      | start isStart _ =>
        cases same
        exact absurd isStart (by decide)
      | escape c _ => cases same
    rw [ident?.eq_2 _ noHyphen, identBody?_append body stop]

theorem ident?_take {text : List Char} {count : Nat} (found : ident? text = some count) :
    Ident (text.take count) ∧ count ≤ text.length := by
  fun_cases ident? text with
  | case1 rest =>
    rw [ident?] at found
    obtain ⟨inner, body, rfl⟩ := Option.map_eq_some_iff.mp found
    have spelled := identBody?_take body
    exact ⟨.hyphen spelled.1, by simpa using spelled.2⟩
  | case2 _ noHyphen =>
    rw [ident?.eq_2 _ noHyphen] at found
    have spelled := identBody?_take found
    exact ⟨.plain spelled.1, spelled.2⟩

theorem name?_append {w : List Char} (spelled : Name w) {rest : List Char}
    (stop : nameTail rest = 0) : name? (w ++ rest) = some w.length := by
  have length := List.length_pos_iff.mpr spelled.2
  rw [name?, nameTail_append spelled.1, stop, Nat.add_zero]
  split
  · omega
  · rfl

theorem name?_take {text : List Char} {count : Nat} (found : name? text = some count) :
    Name (text.take count) ∧ count ≤ text.length := by
  have tail := nameTail_take text
  unfold name? at found
  cases length : nameTail text with
  | zero => simp [length] at found
  | succ more =>
    rw [length] at found tail
    cases found
    refine ⟨⟨tail.1, ?_⟩, tail.2⟩
    intro empty
    have short := congrArg List.length empty
    rw [List.length_take, List.length_nil] at short
    omega

theorem isDigit_of_isNameStart {c : Char} (isStart : isNameStart c = true) : c.isDigit = false := by
  rw [Bool.eq_false_iff]
  intro digit
  have letters : c.isAlpha = (decide (c.val ≥ 65 ∧ c.val ≤ 90) ||
      (decide (c.val ≥ 97) && decide (c.val ≤ 122))) := rfl
  have digits : c.isDigit = (decide (c.val ≥ 48) && decide (c.val ≤ 57)) := rfl
  rw [digits] at digit
  simp only [isNameStart, letters, Char.toNat, Bool.or_eq_true, Bool.and_eq_true,
    decide_eq_true_eq, beq_iff_eq, UInt32.le_iff_toNat_le, ge_iff_le, UInt32.reduceToNat]
    at isStart digit
  rcases isStart with (letter | rfl) | far
  · omega
  · exact absurd digit (by decide)
  · omega

/-- The first character of an identifier is none of the signs of a selector. -/
structure IdentStart (c : Char) : Prop where
  slash : c ≠ '/'
  double : c ≠ '"'
  single : c ≠ '\''
  parent : c ≠ '&'
  space : c ≠ ' '
  child : c ≠ '>'
  next : c ≠ '+'
  following : c ≠ '~'
  colon : c ≠ ':'
  digit : c.isDigit = false

theorem Ident.exists_cons {w : List Char} (ident : Ident w) :
    ∃ c rest, w = c :: rest ∧ IdentStart c := by
  have start : ∀ c, isNameStart c = true → IdentStart c := by
    intro c isStart
    refine ⟨?_, ?_, ?_, ?_, ?_, ?_, ?_, ?_, ?_, isDigit_of_isNameStart isStart⟩
    all_goals
      rintro rfl
      exact absurd isStart (by decide)
  cases ident with
  | plain body => cases body with
    | start isStart _ => exact ⟨_, _, rfl, start _ isStart⟩
    | escape c _ => exact ⟨'\\', _, rfl, by constructor <;> decide⟩
  | hyphen body => exact ⟨'-', _, rfl, by constructor <;> decide⟩

theorem NameTail.isNameChar {w : List Char} (tail : NameTail w) (unescaped : '\\' ∉ w) :
    ∀ c ∈ w, isNameChar c = true := by
  induction tail with
  | nil => simp
  | char isName _ ih =>
    intro d member
    rcases List.mem_cons.mp member with rfl | inside
    · exact isName
    · exact ih (fun escape => unescaped (List.mem_cons_of_mem _ escape)) d inside
  | escape c _ => exact absurd List.mem_cons_self unescaped

/-- Without escapes, all characters of an identifier are those of a name. -/
theorem Ident.isNameChar {w : List Char} (ident : Ident w) (unescaped : '\\' ∉ w) :
    ∀ c ∈ w, isNameChar c = true := by
  have ofBody : ∀ w, IdentBody w → '\\' ∉ w → ∀ c ∈ w, Scan.isNameChar c = true := by
    intro w body unescaped c member
    cases body with
    | start isStart tail =>
      rcases List.mem_cons.mp member with rfl | inside
      · simp [Scan.isNameChar, isStart]
      · exact tail.isNameChar (fun escape => unescaped (List.mem_cons_of_mem _ escape)) c inside
    | escape d _ => exact absurd List.mem_cons_self unescaped
  cases ident with
  | plain body => exact ofBody _ body unescaped
  | hyphen body =>
    intro c member
    rcases List.mem_cons.mp member with rfl | inside
    · decide
    · exact ofBody _ body (fun escape => unescaped (List.mem_cons_of_mem _ escape)) c inside

section Unescaped

variable {text tail : List Char}

/-- Without escapes, a name ends with the run of its characters. -/
theorem nameTail_of_unescaped (unescaped : '\\' ∉ text) : nameTail text = run isNameChar text := by
  induction text with
  | nil => rfl
  | cons c rest ih =>
    have plain : c ≠ '\\' := fun same => unescaped (by simp [same])
    unfold run
    cases isName : isNameChar c with
    | true =>
      rw [nameTail_char isName, ih fun member => unescaped (List.mem_cons_of_mem c member),
        List.takeWhile_cons_of_pos isName]
      rfl
    | false =>
      rw [nameTail_stop isName plain, List.takeWhile_cons_of_neg (by simp [isName])]
      rfl

theorem nameTail_eq_zero (unescaped : text.head? ≠ some '\\')
    (stop : ∀ c, text.head? = some c → isNameChar c = false) : nameTail text = 0 := by
  cases text with
  | nil => rfl
  | cons c rest =>
    apply nameTail_stop (stop c rfl)
    rintro rfl
    exact unescaped rfl

theorem drop_nameTail (unescaped : '\\' ∉ text) :
    ∀ c, (text.drop (nameTail text)).head? = some c → isNameChar c = false := by
  intro c head
  have behind : text.drop (text.takeWhile isNameChar).length = text.dropWhile isNameChar := by
    have split : List.drop (text.takeWhile isNameChar).length
        (text.takeWhile isNameChar ++ text.dropWhile isNameChar) = text.dropWhile isNameChar :=
      List.drop_left
    rwa [List.takeWhile_append_dropWhile] at split
  rw [nameTail_of_unescaped unescaped, run, behind] at head
  have stop := List.head?_dropWhile_not isNameChar text
  rw [head] at stop
  simpa using stop

theorem identBody?_eq_none {c : Char} (plain : c ≠ '\\') (rest : List Char) :
    identBody? (c :: rest) = none ↔ isNameStart c = false := by
  rw [identBody?.eq_2 _ _ (fun _ _ same => absurd same plain)]
  cases isNameStart c <;> simp

/-- A text that does not begin with an identifier does not do so with a blank behind it either. -/
theorem ident?_append_none (unescaped : '\\' ∉ text) (filled : text ≠ [])
    (blank : ∀ c, tail.head? = some c → c = ' ') (absent : ident? text = none) :
    ident? (text ++ tail) = none := by
  have body (text : List Char) (unescaped : '\\' ∉ text) (filled : text ≠ [])
      (absent : identBody? text = none) : identBody? (text ++ tail) = none := by
    obtain ⟨x, more, rfl⟩ := List.exists_cons_of_ne_nil filled
    have plain : x ≠ '\\' := fun same => unescaped (by simp [same])
    rw [List.cons_append, identBody?_eq_none plain]
    exact (identBody?_eq_none plain more).mp absent
  cases text with
  | nil => exact absurd rfl filled
  | cons x more =>
    have isBody : x ≠ '-' → ident? (x :: more) = identBody? (x :: more) ∧
        ident? (x :: (more ++ tail)) = identBody? (x :: (more ++ tail)) := by
      intro notHyphen
      constructor
      all_goals
        unfold ident?
        split
        · rename_i same
          cases same
          exact absurd rfl notHyphen
        · rfl
    by_cases hyphen : x = '-'
    · subst hyphen
      have inner : identBody? (more ++ tail) = none := by
        cases more with
        | nil =>
          cases tail with
          | nil => rfl
          | cons c tail =>
            rw [blank c rfl]
            rfl
        | cons y more =>
          apply body _ (fun member => unescaped (List.mem_cons_of_mem _ member)) (by simp)
          simpa using absent
      simpa using inner
    · obtain ⟨before, after⟩ := isBody hyphen
      rw [List.cons_append, after, ← List.cons_append]
      exact body _ unescaped filled (before ▸ absent)

theorem ident?_blank (blank : ∀ c, tail.head? = some c → c = ' ') : ident? tail = none := by
  cases tail with
  | nil => rfl
  | cons c tail =>
    rw [blank c rfl]
    rfl

theorem ident?_stop (unescaped : '\\' ∉ text) {count : Nat} (found : ident? text = some count) :
    ∀ c, (text.drop count).head? = some c → isNameChar c = false := by
  have body (text : List Char) (unescaped : '\\' ∉ text) {count : Nat}
      (found : identBody? text = some count) :
      ∀ c, (text.drop count).head? = some c → isNameChar c = false := by
    cases text with
    | nil => cases found
    | cons x more =>
      have plain : x ≠ '\\' := fun same => unescaped (by simp [same])
      rw [identBody?.eq_2 _ _ (fun _ _ same => absurd same plain)] at found
      split at found
      · cases found
        exact drop_nameTail fun member => unescaped (List.mem_cons_of_mem x member)
      · cases found
  unfold ident? at found
  split at found
  · obtain ⟨inner, isInner, rfl⟩ := Option.map_eq_some_iff.mp found
    exact body _ (fun member => unescaped (List.mem_cons_of_mem _ member)) isInner
  · exact body _ unescaped found

end Unescaped

/-- A comment goes on up to the first end of a comment. -/
theorem commentBody?_closed {body : List Char} (closed : ¬['*', '/'] <:+: body) (rest : List Char) :
    commentBody? (body ++ '*' :: '/' :: rest) = some (body.length + 2) := by
  induction body with
  | nil => rfl
  | cons c body ih =>
    have inner := ih fun within => closed (within.trans (List.infix_cons List.infix_rfl))
    rw [List.cons_append, commentBody?.eq_2, inner]
    · rfl
    · rintro more rfl same
      cases body with
      | nil => cases same
      | cons d body =>
        cases same
        exact closed ⟨[], body, rfl⟩

theorem run_append {p : Char → Bool} {w rest : List Char} (all : ∀ c ∈ w, p c = true)
    (stop : ∀ c, rest.head? = some c → p c = false) : run p (w ++ rest) = w.length := by
  unfold run
  rw [List.takeWhile_append_of_pos all]
  cases rest with
  | nil => simp
  | cons c rest => rw [List.takeWhile_cons_of_neg (by simp [stop c rfl]), List.append_nil]

theorem lineComment?_none {text : List Char} (noSlash : text.head? ≠ some '/') :
    lineComment? text = none := by
  unfold lineComment?
  split
  · exact absurd rfl noSlash
  · rfl

section Bounds

variable {front behind : List Char} {count : Nat}

/-- A run ends in front of a character that it stops at. -/
theorem run_le {p : Char → Bool} {c : Char} (stops : p c = false) :
    run p (front ++ c :: behind) ≤ front.length := by
  unfold run
  induction front with
  | nil => simp [stops]
  | cons d front ih =>
    rw [List.cons_append, List.takeWhile_cons]
    split
    · exact Nat.succ_le_succ ih
    · exact Nat.zero_le _

theorem runUpTo_le {limit : Nat} {p : Char → Bool} {c : Char} (stops : p c = false) :
    runUpTo limit p (front ++ c :: behind) ≤ front.length := by
  have whole : run p (front ++ c :: behind) ≤ front.length := run_le stops
  unfold runUpTo run at *
  rw [← List.take_takeWhile]
  exact Nat.le_trans (List.length_take_le' _ _) whole

/-- Behind a part of what stands in front of a brace, the rest of it stands there. -/
theorem drop_front (within : count ≤ front.length) :
    (front ++ '\x7b' :: behind).drop count = front.drop count ++ '\x7b' :: behind :=
  List.drop_append_of_le_length within

theorem exists_front {c : Char} {rest : List Char} (notBrace : c ≠ '\x7b')
    (same : front ++ '\x7b' :: behind = c :: rest) :
    ∃ more, front = c :: more ∧ rest = more ++ '\x7b' :: behind := by
  cases front with
  | nil =>
    cases same
    exact absurd rfl notBrace
  | cons d more =>
    cases same
    exact ⟨more, rfl, rfl⟩

theorem nameTail_le (unescaped : '\\' ∉ front) :
    nameTail (front ++ '\x7b' :: behind) ≤ front.length := by
  induction front with
  | nil => exact Nat.le_of_eq (nameTail_stop (by decide) (by decide) behind)
  | cons c front ih =>
    have plain : c ≠ '\\' := fun same => unescaped (by simp [same])
    cases isName : isNameChar c with
    | true =>
      rw [List.cons_append, nameTail_char isName]
      exact Nat.succ_le_succ (ih fun member => unescaped (List.mem_cons_of_mem c member))
    | false =>
      rw [List.cons_append, nameTail_stop isName plain]
      exact Nat.zero_le _

theorem identBody?_le (unescaped : '\\' ∉ front)
    (found : identBody? (front ++ '\x7b' :: behind) = some count) : count ≤ front.length := by
  cases front with
  | nil => cases found
  | cons c front =>
    have plain : c ≠ '\\' := fun same => unescaped (by simp [same])
    rw [List.cons_append, identBody?.eq_2 _ _ (fun _ _ same => absurd same plain)] at found
    split at found <;> cases found
    exact Nat.succ_le_succ (nameTail_le fun member => unescaped (List.mem_cons_of_mem c member))

theorem ident?_le (unescaped : '\\' ∉ front)
    (found : ident? (front ++ '\x7b' :: behind) = some count) : count ≤ front.length := by
  unfold ident? at found
  split at found
  · rename_i rest same
    obtain ⟨more, rfl, rfl⟩ := exists_front (by decide) same
    obtain ⟨body, isBody, rfl⟩ := Option.map_eq_some_iff.mp found
    exact Nat.succ_le_succ
      (identBody?_le (fun member => unescaped (List.mem_cons_of_mem _ member)) isBody)
  · exact identBody?_le unescaped found

theorem digits?_le (found : digits? (front ++ '\x7b' :: behind) = some count) :
    count ≤ front.length := by
  have whole : run Char.isDigit (front ++ '\x7b' :: behind) ≤ front.length := run_le (by decide)
  unfold digits? at found
  dsimp only at found
  split at found
  · rename_i rest same
    rw [drop_front whole] at same
    obtain ⟨more, isFront, rfl⟩ := exists_front (by decide) same
    have length := congrArg List.length isFront
    have fraction : run Char.isDigit (more ++ '\x7b' :: behind) ≤ more.length := run_le (by decide)
    rw [List.length_drop, List.length_cons] at length
    split at found
    · split at found <;> cases found
      exact whole
    · cases found
      omega
  · split at found <;> cases found
    exact whole

theorem number?_le {unit : Nat} (found : number? (front ++ '\x7b' :: behind) = some (count, unit)) :
    count + unit ≤ front.length := by
  obtain ⟨digits, isDigits, same⟩ := Option.map_eq_some_iff.mp found
  cases same
  have whole := digits?_le isDigits
  rw [drop_front whole]
  have letters : run (fun c => c.isAlpha || c == '%') (front.drop count ++ '\x7b' :: behind) ≤
      (front.drop count).length := run_le (by decide)
  rw [List.length_drop] at letters
  omega

theorem hexColor?_le (found : hexColor? (front ++ '\x7b' :: behind) = some count) :
    count ≤ front.length := by
  unfold hexColor? at found
  split at found
  · rename_i rest same
    obtain ⟨more, rfl, rfl⟩ := exists_front (by decide) same
    dsimp only at found
    split at found <;> cases found
    exact Nat.succ_le_succ (runUpTo_le (by decide))
  · cases found

theorem unicodeRange?_le (found : unicodeRange? (front ++ '\x7b' :: behind) = some count) :
    count ≤ front.length := by
  unfold unicodeRange? at found
  split at found
  · rename_i u rest same
    split at found
    · rename_i isLetter
      have notBrace : u ≠ '\x7b' := by
        rintro rfl
        cases isLetter
      obtain ⟨front, rfl, rest⟩ := exists_front notBrace same
      obtain ⟨front, rfl, rfl⟩ := exists_front (by decide) rest.symm
      have first : runUpTo 6 (fun c => isHexDigit c || c == '?') (front ++ '\x7b' :: behind) ≤
          front.length := runUpTo_le (by decide)
      split at found
      · cases found
      · rename_i isFirst
        rw [drop_front first] at found
        split at found
        · rename_i second same
          obtain ⟨more, isMore, rfl⟩ := exists_front (by decide) same
          have last : runUpTo 6 isHexDigit (more ++ '\x7b' :: behind) ≤ more.length :=
            runUpTo_le (by decide)
          have length := congrArg List.length isMore
          rw [List.length_drop, List.length_cons] at length
          split at found <;> cases found <;> simp only [List.length_cons] <;> omega
        · cases found
          simp only [List.length_cons]
          omega
    · cases found
  · cases found

end Bounds

end Stylesheet.Scan
