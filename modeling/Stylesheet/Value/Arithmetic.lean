import Stylesheet.Value.Basic

/-!
The operators of the expression language. Numbers combine with unit conversion, colors channel by
channel; `+`, `-` and `/` join the texts of all other operands.
-/

namespace Stylesheet.Value

private def cssText (v : Value) : Except ValueError String :=
  v.toCss .nested

/-- Both texts with `sign` between them. -/
private def joined (sign : String) (a b : Value) : Except ValueError Value := do
  let left ← a.cssText
  let right ← b.cssText
  .ok (unquoted (left ++ sign ++ right))

private def undefinedFor (operator : String) (a b : Value) : ValueError :=
  .undefinedOperation a.inspect operator b.inspect

def plus : Value → Value → Except ValueError Value
  | number a, number b => number <$> a.plus b
  | number n, color c => color <$> c.plus (.number n)
  | color c, number n => color <$> c.plus (.number n)
  | color a, color b => color <$> a.plus (.color b)
  | text a quoted, text b _ => .ok (text (a ++ b) quoted)
  | text a quoted, other => (fun right => text (a ++ right) quoted) <$> other.cssText
  | other, text b quoted => (fun left => text (left ++ b) quoted) <$> other.cssText
  | a, b => joined "" a b

def minus : Value → Value → Except ValueError Value
  | number a, number b => number <$> a.minus b
  | color c, number n => color <$> c.minus (.number n)
  | color a, color b => color <$> a.minus (.color b)
  | a, b => joined "-" a b

def times : Value → Value → Except ValueError Value
  | number a, number b => .ok (number (a.times b))
  | number n, color c => color <$> c.times (.number n)
  | color c, number n => color <$> c.times (.number n)
  | color a, color b => color <$> a.times (.color b)
  | a, b => .error (undefinedFor "*" a b)

def div : Value → Value → Except ValueError Value
  | number a, number b => .ok (number (a.div b))
  | color c, number n => color <$> c.div (.number n)
  | color a, color b => color <$> a.div (.color b)
  | a, b => joined "/" a b

def modulo : Value → Value → Except ValueError Value
  | number a, number b => .ok (number (a.modulo b))
  | color c, number n => color <$> c.modulo (.number n)
  | color a, color b => color <$> a.modulo (.color b)
  | a, b => .error (undefinedFor "%" a b)

/-- The `=` of filter arguments. -/
def singleEq (a b : Value) : Except ValueError Value :=
  joined "=" a b

private def compareBy (operator : String) (test : Ordering → Bool) :
    Value → Value → Except ValueError Value
  | number a, number b => (fun order => bool (test order)) <$> a.compare b
  | a, b => .error (undefinedFor operator a b)

def lt (a b : Value) : Except ValueError Value :=
  compareBy "<" Ordering.isLT a b

def lte (a b : Value) : Except ValueError Value :=
  compareBy "<=" Ordering.isLE a b

def gt (a b : Value) : Except ValueError Value :=
  compareBy ">" Ordering.isGT a b

def gte (a b : Value) : Except ValueError Value :=
  compareBy ">=" Ordering.isGE a b

private def marked (sign : String) (v : Value) : Except ValueError Value := do
  let content ← v.cssText
  .ok (unquoted (sign ++ content))

def unaryMinus : Value → Except ValueError Value
  | number n => .ok (number n.negate)
  | other => marked "-" other

def unaryPlus : Value → Except ValueError Value
  | number n => .ok (number n.withoutSpelling)
  | other => marked "+" other

def unaryDiv (v : Value) : Except ValueError Value :=
  marked "/" v

def not (v : Value) : Value :=
  bool !v.isTruthy

end Stylesheet.Value
