import Stylesheet.Proofs.Expr.Errors
import Stylesheet.Statement.Indented

/-! Reading the header of a statement fails with errors of the stylesheet only. -/

namespace Stylesheet

namespace Header

variable {P : Cursor → Prop}

/-- A reading that fails with errors of the stylesheet only, at places with a property, whatever the
lines are. -/
def Sound (P : Cursor → Prop) (reading : Reading α) : Prop :=
  ∀ lines, Runs P (reading lines)

namespace Sound

theorem pure {a : α} : Sound P (Pure.pure a) :=
  fun _ => .pure

theorem bind {reading : Reading α} {next : α → Reading β} (sound : Sound P reading)
    (behind : ∀ a, Sound P (next a)) : Sound P (reading >>= next) :=
  fun lines => (sound lines).bind fun a => behind a lines

theorem map {reading : Reading α} {f : α → β} (sound : Sound P reading) :
    Sound P (f <$> reading) :=
  fun lines => (sound lines).map

theorem throw {d : Diagnostic} (isError : d.severity = .error) :
    Sound P (MonadExcept.throw d : Reading α) :=
  fun _ => .throw isError

theorem read : Sound P (MonadReader.read : Reading LineIndex) :=
  fun _ => .pure

theorem get_bind {next : Cursor → Reading α} (behind : ∀ c, P c → Sound P (next c)) :
    Sound P (MonadState.get >>= next) :=
  fun lines => Runs.get_bind fun c here => behind c here lines

theorem set {c : Cursor} (here : P c) : Sound P (MonadState.set c : Reading PUnit) :=
  fun _ _ _ => .ok here

theorem update {f : Cursor → Cursor} (keeps : ∀ c, P c → P (f c)) :
    Sound P (modify f : Reading PUnit) :=
  fun _ => .update keeps

/-- Two ways to go on in the same way. -/
theorem join {condition : Prop} [Decidable condition] {one other : Reading α}
    {next : α → Reading β} (first : Sound P one) (second : Sound P other)
    (behind : ∀ a, Sound P (next a)) :
    Sound P (if condition then one >>= next else other >>= next) := by
  split
  · exact first.bind behind
  · exact second.bind behind

end Sound

section Steps

variable {text word what : String} {start : Nat}

theorem position_sound : Sound P position :=
  Sound.get_bind fun _ _ => .pure

theorem lineNumber_sound : Sound P lineNumber :=
  Sound.read.bind fun _ => Sound.get_bind fun _ _ => .pure

theorem failExpected_sound : Sound P (failExpected what : Reading α) :=
  Sound.read.bind fun _ => Sound.get_bind fun _ _ => .throw rfl

theorem fail_sound {fault : Fault} : Sound P (fail fault what : Reading α) :=
  Sound.read.bind fun _ => Sound.get_bind fun _ _ => .throw rfl

theorem spanFrom_sound : Sound P (spanFrom start) :=
  Sound.get_bind fun _ _ => .pure

theorem scripted_sound {reader : LineIndex → Cursor → Except Diagnostic (α × Cursor)}
    (settles : ∀ lines c, P c → Settles P (reader lines c)) : Sound P (scripted reader) := by
  refine Sound.read.bind fun lines => Sound.get_bind fun c here => ?_
  intro _
  obtain ⟨blames, keeps⟩ := settles lines c here
  cases found : reader lines c with
  | error d => exact fun _ _ => .error (blames d found)
  | ok result => exact fun _ _ => .ok (keeps _ _ found)

variable [Onward P]

theorem eat_sound : Sound P (eat text) := by
  refine Sound.get_bind fun c here => ?_
  split
  · rename_i after ate
    exact (Sound.set (Onward.eat? here ate)).bind fun _ => .pure
  · exact .pure

theorem eatWord_sound : Sound P (eatWord word) := by
  refine Sound.get_bind fun c here => ?_
  split
  · exact (Sound.set (Onward.advance here _)).bind fun _ => .pure
  · exact .pure

theorem take_sound {count : Nat} : Sound P (take count) :=
  Sound.get_bind fun _ here => (Sound.set (Onward.advance here _)).bind fun _ => .pure

theorem scan?_sound {form : List Char → Option Nat} : Sound P (scan? form) := by
  refine Sound.get_bind fun c _ => ?_
  split
  · exact take_sound.map
  · exact .pure

theorem skipBlanks_sound : Sound P skipBlanks :=
  .update fun _ => Onward.skipBlanks

theorem skipGaps_onward {c : Cursor} (here : P c) (fuel : Nat) : P (skipGaps c fuel) := by
  induction fuel generalizing c with
  | zero => exact here
  | succ fuel ih =>
    unfold skipGaps
    dsimp only
    split
    · exact ih (Onward.advance (Onward.skipBlanks here) _)
    · exact Onward.skipBlanks here

theorem skipBlanksAndLineComments_sound : Sound P skipBlanksAndLineComments :=
  .update fun _ here => skipGaps_onward here _

theorem expr_sound : Sound P expr :=
  scripted_sound fun _ _ => Script.parse_settles

theorem exprBefore_sound {words : List String} : Sound P (exprBefore words) :=
  scripted_sound fun _ _ => Script.parse_settles

theorem interpolation_sound : Sound P interpolation :=
  scripted_sound fun _ _ => Script.parseInterpolation_settles

end Steps

section Templates

variable [Onward P]

theorem takeString_sound (parts : Template) (quote : Char) (fuel : Nat) :
    Sound P (takeString parts quote fuel) := by
  induction fuel generalizing parts with
  | zero => exact fail_sound
  | succ fuel ih =>
    refine eat_sound.bind fun opens => ?_
    split
    · exact interpolation_sound.bind fun _ => ih _
    · refine Sound.get_bind fun c here => ?_
      split
      · exact fail_sound
      · exact (Sound.set (Onward.next here)).bind fun _ => fail_sound
      · exact take_sound.bind fun _ => ih _
      · split
        · exact take_sound.bind fun _ => .pure
        · exact take_sound.bind fun _ => ih _

theorem takeText_sound (stop : Char → Bool) (parts : Template) (fuel : Nat) :
    Sound P (takeText stop parts fuel) := by
  induction fuel generalizing parts with
  | zero => exact .pure
  | succ fuel ih =>
    refine eat_sound.bind fun opens => ?_
    split
    · exact interpolation_sound.bind fun _ => ih _
    · refine Sound.get_bind fun c here => ?_
      split
      · exact .pure
      · split
        · exact .pure
        · split
          · exact take_sound.bind fun _ => ih _
          · split
            · exact take_sound.bind fun _ => (takeString_sound _ _ _).bind fun _ => ih _
            · exact take_sound.bind fun _ => ih _

theorem templateUntil_sound {stop : Char → Bool} : Sound P (templateUntil stop) :=
  Sound.get_bind fun _ _ => takeText_sound _ _ _

/-- A string ends further on, and so does one that is cut off. -/
theorem stringEnd_onward {quote : Char} {c after : Cursor} (here : P c) (fuel : Nat)
    (ends : stringEnd quote c fuel = .ok after ∨ stringEnd quote c fuel = .error after) :
    P after := by
  induction fuel generalizing c with
  | zero =>
    obtain ends | ends := ends <;> cases ends
    exact here
  | succ fuel ih =>
    unfold stringEnd at ends
    split at ends
    · obtain ends | ends := ends <;> cases ends
      exact here
    · obtain ends | ends := ends <;> cases ends
      exact Onward.next here
    · exact ih (Onward.advance here 2) ends
    · split at ends
      · obtain ends | ends := ends <;> cases ends
        exact Onward.next here
      · exact ih (Onward.next here) ends

theorem quoted_sound : Sound P quoted := by
  refine Sound.get_bind fun start here => ?_
  split
  · exact failExpected_sound
  · split
    · rename_i c ends
      exact (Sound.set (stringEnd_onward (Onward.next here) _ (.inl ends))).bind fun _ => .pure
    · rename_i c ends
      exact (Sound.set (stringEnd_onward (Onward.next here) _ (.inr ends))).bind fun _ => fail_sound

end Templates

section Statements

variable [Onward P]

theorem assignment_sound (dialect : Dialect) : Sound P (assignment dialect) := by
  refine position_sound.bind fun _ => lineNumber_sound.bind fun _ => eat_sound.bind
    fun _ => scan?_sound.bind fun name => ?_
  split
  · exact failExpected_sound
  · refine skipBlanks_sound.bind fun _ => eat_sound.bind fun _ =>
      .join eat_sound .pure fun separated => ?_
    dsimp only
    split
    · exact failExpected_sound
    · exact expr_sound.bind fun _ => skipBlanks_sound.bind fun _ => eatWord_sound.bind
        fun _ => spanFrom_sound.bind fun _ => .pure

theorem moreName_sound (parts : Template) (fuel : Nat) : Sound P (moreName parts fuel) := by
  induction fuel generalizing parts with
  | zero => exact .pure
  | succ fuel ih =>
    refine eat_sound.bind fun opens => ?_
    split
    · exact interpolation_sound.bind fun _ => ih _
    · refine scan?_sound.bind fun more => ?_
      split
      · exact ih _
      · exact .pure

theorem propertyName?_sound : Sound P propertyName? := by
  refine eat_sound.bind fun star => ?_
  dsimp only
  refine Sound.get_bind fun c here => eat_sound.bind fun opens => ?_
  split
  · exact interpolation_sound.bind fun _ => (moreName_sound _ _).map
  · refine scan?_sound.bind fun first => ?_
    split
    · exact (moreName_sound _ _).map
    · exact .pure

theorem propertyValue?_sound : Sound P propertyValue? := by
  refine Sound.get_bind fun c here => ?_
  split
  · exact .pure
  · split
    · exact .pure
    · exact expr_sound.map

theorem definitionName_sound : Sound P definitionName := by
  refine scan?_sound.bind fun name => ?_
  split
  · exact .pure
  · exact failExpected_sound

theorem mixinDefinition_sound : Sound P mixinDefinition :=
  definitionName_sound.bind fun _ =>
    (scripted_sound fun _ _ => Script.parseParams_settles).bind fun _ => .pure

theorem inclusion_sound : Sound P inclusion :=
  definitionName_sound.bind fun _ =>
    (scripted_sound fun _ _ => Script.parseArguments_settles).bind fun _ => .pure

theorem loopVariable_sound : Sound P loopVariable := by
  refine eat_sound.bind fun dollar => ?_
  split
  · refine scan?_sound.bind fun name => ?_
    split
    · exact .pure
    · exact failExpected_sound
  · exact failExpected_sound

theorem countHeader_sound : Sound P countHeader := by
  refine loopVariable_sound.bind fun _ => skipBlanks_sound.bind fun _ => eatWord_sound.bind
    fun hasFrom => ?_
  split
  · refine exprBefore_sound.bind fun _ => skipBlanks_sound.bind fun _ => eatWord_sound.bind
      fun through => ?_
    split
    · exact expr_sound.bind fun _ => .pure
    · refine eatWord_sound.bind fun upTo => ?_
      split
      · exact expr_sound.bind fun _ => .pure
      · exact failExpected_sound
  · exact failExpected_sound

theorem eachHeader_sound : Sound P eachHeader := by
  refine loopVariable_sound.bind fun _ => skipBlanks_sound.bind fun _ => eatWord_sound.bind
    fun hasIn => ?_
  split
  · exact expr_sound.bind fun _ => .pure
  · exact failExpected_sound

theorem importName_sound : Sound P importName := by
  refine Sound.get_bind fun c here => ?_
  split
  · exact quoted_sound.bind fun _ => .pure
  · split
    · dsimp only
      split
      · exact take_sound.bind fun _ => .pure
      · exact failExpected_sound
    · exact failExpected_sound

theorem imports_sound (found : List Statement) (fuel : Nat) : Sound P (imports found fuel) := by
  induction fuel generalizing found with
  | zero => exact .pure
  | succ fuel ih =>
    refine skipBlanks_sound.bind fun _ => position_sound.bind fun _ => lineNumber_sound.bind
      fun _ => importName_sound.bind fun _ => skipBlanks_sound.bind fun _ => ?_
    refine Sound.get_bind fun _ here => take_sound.bind fun _ => spanFrom_sound.bind fun _ =>
      skipBlanks_sound.bind fun _ => eat_sound.bind fun more => ?_
    split
    · exact ih _
    · exact .pure

theorem directiveKind_sound {start : Cursor} (here : P start) (name : String) :
    Sound P (directiveKind start name) := by
  have value : ∀ kind : Expr → StatementKind, Sound P (do return kind (← expr)) :=
    fun _ => expr_sound.bind fun _ => .pure
  unfold directiveKind
  -- one case for each name with a meaning, and the last one for all others
  split
  · exact mixinDefinition_sound
  · exact definitionName_sound.bind fun _ =>
      (scripted_sound fun _ _ => Script.parseParams_settles).bind fun _ => .pure
  · exact inclusion_sound
  · exact value _
  · exact value _
  · exact value _
  · exact value _
  · exact (Sound.set here).bind fun _ => fail_sound
  · exact value _
  · exact countHeader_sound
  · exact eachHeader_sound
  · refine templateUntil_sound.bind fun selector => ?_
    dsimp only
    split
    · exact failExpected_sound
    · exact .pure
  · exact templateUntil_sound.bind fun _ => .pure
  · exact quoted_sound.bind fun _ => .pure
  · exact templateUntil_sound.bind fun _ => .pure

theorem directive_sound : Sound P directive := by
  refine Sound.get_bind fun _ here => lineNumber_sound.bind fun _ => eat_sound.bind fun _ =>
    scan?_sound.bind fun name => ?_
  split
  · exact failExpected_sound
  · refine skipBlanks_sound.bind fun _ => ?_
    split
    · exact Sound.get_bind fun _ here => imports_sound _ _
    · exact (directiveKind_sound here _).bind fun _ => spanFrom_sound.bind fun _ => .pure

theorem elseBranch_sound (start line : Nat) : Sound P (elseBranch start line) :=
  skipBlanks_sound.bind fun _ => eatWord_sound.bind fun _ =>
    .join expr_sound.map .pure fun _ => spanFrom_sound.bind fun _ => .pure

end Statements

end Header

namespace Indented

open Header

variable {P : Cursor → Prop} [Onward P] {source : Source} {line : SourceLine} {hasChildren : Bool}

theorem expectLineEnd_sound : Sound P expectLineEnd := by
  refine skipBlanksAndLineComments_sound.bind fun _ => Sound.get_bind fun c _ => ?_
  split
  · exact .pure
  · exact failExpected_sound

theorem property_sound : Sound P (property source line hasChildren) := by
  refine propertyName?_sound.bind fun name => ?_
  split
  · exact failExpected_sound
  · refine skipBlanks_sound.bind fun _ => eat_sound.bind fun colon => ?_
    dsimp only
    split
    refine eat_sound.bind fun _ => ?_
    all_goals
      refine propertyValue?_sound.bind fun value => expectLineEnd_sound.bind fun _ => ?_
      split
      · exact .throw rfl
      · exact .pure

theorem rule_sound : Sound P (rule line) := by
  refine templateUntil_sound.bind fun selector => ?_
  dsimp only
  split
  · exact failExpected_sound
  · exact .pure

theorem seesProperty_sound : Sound P seesProperty := by
  refine propertyName?_sound.bind fun name => ?_
  split
  · exact .pure
  · refine skipBlanks_sound.bind fun _ => eat_sound.bind fun colon => ?_
    split
    · exact Sound.get_bind fun _ _ => .pure
    · exact .pure

theorem propertyOrRule_sound : Sound P (propertyOrRule source line hasChildren) := by
  refine Sound.get_bind fun _ here => seesProperty_sound.bind fun isProperty => (Sound.set here).bind
    fun _ => ?_
  split
  · exact property_sound
  · exact rule_sound

theorem header_sound : Sound P (header source line hasChildren) := by
  have single : ∀ {reading : Reading Statement}, Sound P reading →
      Sound P (do return [← reading]) := fun sound => sound.bind fun _ => .pure
  have ownLine : ∀ kind : StatementKind,
      Sound P (spanFrom line.start >>= fun span => pure [Statement.leaf kind line.number span]) :=
    fun _ => spanFrom_sound.bind fun _ => .pure
  refine Sound.get_bind fun c here => ?_
  dsimp only
  split
  · exact (assignment_sound .indented).bind fun _ => expectLineEnd_sound.bind fun _ => .pure
  · exact directive_sound.bind fun _ => expectLineEnd_sound.bind fun _ => .pure
  · exact (Sound.set (Onward.next here)).bind fun _ => skipBlanks_sound.bind fun _ =>
      mixinDefinition_sound.bind fun _ => expectLineEnd_sound.bind fun _ => ownLine _
  · split
    · exact single propertyOrRule_sound
    · exact (Sound.set (Onward.next here)).bind fun _ => inclusion_sound.bind fun _ =>
        expectLineEnd_sound.bind fun _ => ownLine _
  · split
    · exact single propertyOrRule_sound
    · exact (Sound.set (Onward.next here)).bind fun _ => single property_sound
  · exact (Sound.set (Onward.next here)).bind fun _ => single rule_sound
  · exact single propertyOrRule_sound

theorem elseHeader?_sound : Sound P (elseHeader? line) := by
  refine eat_sound.bind fun _ => .join eatWord_sound .pure fun isElse => ?_
  dsimp only
  split
  · exact (elseBranch_sound _ _).bind fun _ => expectLineEnd_sound.bind fun _ => .pure
  · exact .pure

end Indented

end Stylesheet
