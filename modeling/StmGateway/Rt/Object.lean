import Mathlib.Tactic

/-!
# Kernel objects

`rt_object_init`, `rt_object_detach` and the two queries of
`rt-thread/src/object.c`, over the object lists of the container. A failed
`RT_ASSERT` does not return (`RT_DEBUG` is defined); such a call is an error that
carries the condition as the handler prints it.
-/
namespace StmGateway.Rt.Object

def rtNameMax : Nat := 8

/-- The classes whose objects a thread control block holds. -/
inductive ObjectClass where
  | thread
  | timer
  deriving DecidableEq

/-- `RT_Object_Class_Thread` and `RT_Object_Class_Timer`. -/
def ObjectClass.code : ObjectClass → UInt8
  | .thread => 0x01
  | .timer => 0x0a

/-- `RT_Object_Class_Static`. -/
def classStatic : UInt8 := 0x80

structure RtObject where
  name : String
  type : UInt8
  flag : UInt8
  deriving DecidableEq

/-- The objects by address, and the object list of each class. -/
structure Container (α : Type) where
  object : α → RtObject
  information : ObjectClass → List α

def rtAssert (cond : Prop) [Decidable cond] (text : String) : Except String Unit :=
  if cond then pure () else .error text

theorem rtAssert_of {cond : Prop} [Decidable cond] (h : cond) (text : String) :
    rtAssert cond text = pure () := if_pos h

theorem rtAssert_fails {cond : Prop} [Decidable cond] (h : ¬cond) (text : String) :
    rtAssert cond text = .error text := if_neg h

variable {α : Type} [DecidableEq α]

def rtStrncpy (src : String) (n : Nat) : String := String.ofList (src.toList.take n)

/-- The walk over the object list asserts that no node is `object`. -/
def rtObjectInit (c : Container α) (object : α) (cls : ObjectClass) (name : String) :
    Except String (Container α) := do
  rtAssert (object ∉ c.information cls) "obj != object"
  return {
    object := Function.update c.object object { c.object object with
      type := cls.code ||| classStatic
      name := rtStrncpy name rtNameMax }
    information := Function.update c.information cls (object :: c.information cls) }

/-- `rt_list_remove` unlinks the node from the list it is on. -/
def rtObjectDetach (c : Container α) (object : α) : Container α where
  object := Function.update c.object object { c.object object with type := 0 }
  information := fun cls => (c.information cls).filter (· ≠ object)

def rtObjectIsSystemobject (o : RtObject) : Bool := o.type &&& classStatic ≠ 0

def rtObjectGetType (o : RtObject) : UInt8 := o.type &&& ~~~classStatic

/-- The class an object was registered under. -/
def RtObject.Is (o : RtObject) (cls : ObjectClass) : Prop := o.type = cls.code ||| classStatic

theorem RtObject.Is.getType {o : RtObject} {cls : ObjectClass} (h : o.Is cls) :
    rtObjectGetType o = cls.code := by
  rw [rtObjectGetType, show o.type = _ from h]
  cases cls <;> decide

theorem RtObject.Is.isSystemobject {o : RtObject} {cls : ObjectClass} (h : o.Is cls) :
    rtObjectIsSystemobject o = true := by
  rw [rtObjectIsSystemobject, show o.type = _ from h]
  cases cls <;> decide

theorem getType_zero {o : RtObject} (h : o.type = 0) (cls : ObjectClass) :
    rtObjectGetType o ≠ cls.code := by
  rw [rtObjectGetType, h]
  cases cls <;> decide

end StmGateway.Rt.Object
