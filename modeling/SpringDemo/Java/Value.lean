import Mathlib.Data.List.Basic
import SpringDemo.Java.Reflect

/-! Values of the types that services declare, what `Method.invoke` makes of them, and what is
left of them after a trip through JSON text. -/
namespace SpringDemo.Java

/-- The classes of integral numbers. -/
inductive NumClass where
  | byte | short | integer | long | bigInteger
deriving DecidableEq, Repr

namespace NumClass

/-- The numbers that an object of the class can hold. -/
def Fits : NumClass → Int → Prop
  | byte, n => -128 ≤ n ∧ n ≤ 127
  | short, n => -32768 ≤ n ∧ n ≤ 32767
  | integer, n => -2147483648 ≤ n ∧ n ≤ 2147483647
  | long, n => -9223372036854775808 ≤ n ∧ n ≤ 9223372036854775807
  | bigInteger, _ => True

instance (k : NumClass) (n : Int) : Decidable (k.Fits n) := by
  cases k <;> unfold Fits <;> infer_instance

end NumClass

/-- A class of the platform by its name. -/
def platformClass (name : String) (hb : 91 ∉ utf16 name := by decide)
    (hk : ∀ p : Prim, utf16 name ≠ p.keyword := by intro p; cases p <;> decide) : ClassName :=
  ⟨utf16 name, hb, hk⟩

def booleanClass : ClassName := platformClass "java.lang.Boolean"
def byteClass : ClassName := platformClass "java.lang.Byte"
def shortClass : ClassName := platformClass "java.lang.Short"
def integerClass : ClassName := platformClass "java.lang.Integer"
def longClass : ClassName := platformClass "java.lang.Long"
def stringClass : ClassName := platformClass "java.lang.String"
def listClass : ClassName := platformClass "java.util.List"

/-- The classes that a declared type may name besides the beans. -/
def platformClasses : List ClassName :=
  [booleanClass, byteClass, shortClass, integerClass, longClass, stringClass, listClass]

/-- A class of plain beans with its properties; the classes of the platform are none. -/
structure BeanClass where
  name : ClassName
  properties : List JString
  plain : name ∉ platformClasses
deriving DecidableEq

/-- How a list is implemented, which its equality does not see. -/
inductive ListClass where
  | arrayList | jsonArray
deriving DecidableEq, Repr

inductive Value where
  | null
  | num (k : NumClass) (n : Int)
  | bool (b : Bool)
  | str (s : JString)
  | list (c : ListClass) (xs : List Value)
  | jsonObject (keys : List JString) (values : List Value)
  /-- the values of the bean's properties, in the order of its class -/
  | bean (c : BeanClass) (values : List Value)

instance : JavaObject Value := ⟨.null⟩

namespace Value

mutual

/-- `equals`: lists compare their elements, plain beans of one class their properties. -/
def equals : Value → Value → Bool
  | null, null => true
  | num k n, num k' n' => k == k' && n == n'
  | bool b, bool b' => b == b'
  | str s, str s' => s == s'
  | list _ xs, list _ ys => equalsAll xs ys
  | jsonObject ks vs, jsonObject ks' vs' => ks == ks' && equalsAll vs vs'
  | bean c vs, bean c' vs' => c == c' && equalsAll vs vs'
  | _, _ => false

def equalsAll : List Value → List Value → Bool
  | [], [] => true
  | x :: xs, y :: ys => x.equals y && equalsAll xs ys
  | _, _ => false

end

end Value

/-- The values that JSON text denotes. -/
inductive Json where
  | null
  | num (n : Int)
  | bool (b : Bool)
  | str (s : JString)
  | arr (xs : List Json)
  | obj (keys : List JString) (values : List Json)

def Value.isNull : Value → Bool
  | .null => true
  | _ => false

/-- The keys whose values are not null. -/
def presentKeys : List JString → List Value → List JString
  | k :: ks, v :: vs => if v.isNull then presentKeys ks vs else k :: presentKeys ks vs
  | _, _ => []

mutual

/-- The text of a value: the class of a number, of a list and of a bean is not part of it, and
null properties are left out. -/
def Value.toJson : Value → Json
  | .null => .null
  | .num _ n => .num n
  | .bool b => .bool b
  | .str s => .str s
  | .list _ xs => .arr (Value.toJsonAll xs)
  | .jsonObject ks vs => .obj (presentKeys ks vs) (Value.toJsonPresent vs)
  | .bean c vs => .obj (presentKeys c.properties vs) (Value.toJsonPresent vs)

def Value.toJsonAll : List Value → List Json
  | [] => []
  | x :: xs => x.toJson :: Value.toJsonAll xs

def Value.toJsonPresent : List Value → List Json
  | [] => []
  | x :: xs => if x.isNull then Value.toJsonPresent xs else x.toJson :: Value.toJsonPresent xs

end

/-- The smallest class of `Integer`, `Long` and `BigInteger` that holds the number. -/
def NumClass.ofText (n : Int) : NumClass :=
  if NumClass.integer.Fits n then .integer else if NumClass.long.Fits n then .long else .bigInteger

mutual

/-- What is read back where the declared type is `Object`. -/
def Json.read : Json → Value
  | .null => .null
  | .num n => .num (.ofText n) n
  | .bool b => .bool b
  | .str s => .str s
  | .arr xs => .list .jsonArray (Json.readAll xs)
  | .obj ks vs => .jsonObject ks (Json.readAll vs)

def Json.readAll : List Json → List Value
  | [] => []
  | x :: xs => x.read :: Json.readAll xs

end

/-- A value after a trip through its JSON text. -/
def Value.reread (v : Value) : Value := v.toJson.read

@[simp] theorem Value.reread_null : Value.null.reread = .null := rfl
@[simp] theorem Value.reread_num (k : NumClass) (n : Int) :
    (Value.num k n).reread = .num (.ofText n) n := rfl
@[simp] theorem Value.reread_bool (b : Bool) : (Value.bool b).reread = .bool b := rfl
@[simp] theorem Value.reread_str (s : JString) : (Value.str s).reread = .str s := rfl
@[simp] theorem Value.reread_bean (c : BeanClass) (vs : List Value) :
    (Value.bean c vs).reread = .jsonObject (presentKeys c.properties vs)
      (Json.readAll (Value.toJsonPresent vs)) := rfl

@[simp] theorem Value.reread_list (c : ListClass) (xs : List Value) :
    (Value.list c xs).reread = .list .jsonArray (xs.map Value.reread) := by
  have h : ∀ ys : List Value, Json.readAll (Value.toJsonAll ys) = ys.map Value.reread := by
    intro ys
    induction ys with
    | nil => rfl
    | cons y ys ih => simp [Value.toJsonAll, Json.readAll, Value.reread, ih]
  simp [Value.reread, Value.toJson, Json.read, h]

/-- The primitive types among the declared ones, and their boxes. -/
inductive Scalar where
  | boolean | byte | short | int | long
deriving DecidableEq, Repr

namespace Scalar

def prim : Scalar → Prim
  | boolean => .boolean
  | byte => .byte
  | short => .short
  | int => .int
  | long => .long

/-- The class of the box of an integral type. -/
def numClass : Scalar → Option NumClass
  | boolean => none
  | byte => some .byte
  | short => some .short
  | int => some .integer
  | long => some .long

end Scalar

/-- The types that a service may declare. -/
inductive DeclaredType where
  | prim (s : Scalar)
  | box (s : Scalar)
  | string
  | list (elem : DeclaredType)
  | bean (c : BeanClass) (properties : List DeclaredType)

namespace DeclaredType

/-- The class that stands for the type in a method's signature; type arguments are erased. -/
def erase : DeclaredType → JType
  | prim s => .prim s.prim
  | box .boolean => .cls booleanClass
  | box .byte => .cls byteClass
  | box .short => .cls shortClass
  | box .int => .cls integerClass
  | box .long => .cls longClass
  | string => .cls stringClass
  | list _ => .cls listClass
  | bean c _ => .cls c.name

end DeclaredType

/-- A number of one class widens to the numbers of a larger primitive type. -/
def NumClass.rank : NumClass → Nat
  | byte => 0
  | short => 1
  | integer => 2
  | long => 3
  | bigInteger => 4

/-- What `Method.invoke` makes of an argument for a parameter of a declared type: it unboxes
and widens for a primitive type, and otherwise wants an instance of the class or null. -/
def convert : DeclaredType → Value → Option Value
  | .prim .boolean, .bool b => some (.bool b)
  | .prim s, .num k n =>
    match s.numClass with
    | some k' => if k.rank ≤ k'.rank then some (.num k' n) else none
    | none => none
  | .prim _, _ => none
  | .box _, .null => some .null
  | .box .boolean, .bool b => some (.bool b)
  | .box s, .num k n => if s.numClass = some k then some (.num k n) else none
  | .box _, _ => none
  | .string, .null => some .null
  | .string, .str s => some (.str s)
  | .string, _ => none
  | .list _, .null => some .null
  | .list _, .list c xs => some (.list c xs)
  | .list _, _ => none
  | .bean _ _, .null => some .null
  | .bean c _, .bean c' vs => if c.name = c'.name then some (.bean c' vs) else none
  | .bean _ _, _ => none

/-- A value of a declared type, the one of a primitive type in its box. -/
inductive HasType : DeclaredType → Value → Prop
  | primBool (b : Bool) : HasType (.prim .boolean) (.bool b)
  | primNum (s : Scalar) (k : NumClass) (n : Int) (hk : s.numClass = some k) (hn : k.Fits n) :
      HasType (.prim s) (.num k n)
  | boxNull (s : Scalar) : HasType (.box s) .null
  | boxBool (b : Bool) : HasType (.box .boolean) (.bool b)
  | boxNum (s : Scalar) (k : NumClass) (n : Int) (hk : s.numClass = some k) (hn : k.Fits n) :
      HasType (.box s) (.num k n)
  | stringNull : HasType .string .null
  | string (s : JString) : HasType .string (.str s)
  | listNull (t : DeclaredType) : HasType (.list t) .null
  | list (t : DeclaredType) (c : ListClass) (xs : List Value) (h : ∀ x ∈ xs, HasType t x) :
      HasType (.list t) (.list c xs)
  | beanNull (c : BeanClass) (ts : List DeclaredType) : HasType (.bean c ts) .null
  | bean (c : BeanClass) (ts : List DeclaredType) (vs : List Value)
      (hl : ts.length = vs.length) (h : ∀ p ∈ ts.zip vs, HasType p.1 p.2) :
      HasType (.bean c ts) (.bean c vs)

end SpringDemo.Java
