import Mathlib.Data.String.Basic

/-!
# Message descriptors

The part of `prost_reflect` that the server reads of a descriptor pool: the full name of a message
and its fields.  Descriptors may refer to each other in cycles, so a message descriptor is a
reference of some type `M`, and the pool gives what it refers to.
-/

namespace MoenotesApi

/-- `prost_reflect::Kind`; an enumeration is the list of its values. -/
inductive Kind (M : Type)
  | double
  | float
  | int32
  | int64
  | uint32
  | uint64
  | sint32
  | sint64
  | fixed32
  | fixed64
  | sfixed32
  | sfixed64
  | bool
  | string
  | bytes
  | message (desc : M)
  | enum (values : List (String × Int))

/-- `prost_reflect::FieldDescriptor`. -/
structure FieldDescriptor (M : Type) where
  name : String
  jsonName : String
  kind : Kind M
  isMap : Bool
  isList : Bool

/-- `prost_reflect::DescriptorPool`. -/
structure DescriptorPool (M : Type) where
  fullName : M → String
  fields : M → List (FieldDescriptor M)
  getMessageByName : String → Option M

/-- `MessageDescriptor::get_field_by_name`. -/
def DescriptorPool.getFieldByName {M : Type} (pool : DescriptorPool M) (desc : M) (name : String) :
    Option (FieldDescriptor M) :=
  (pool.fields desc).find? fun field => field.name = name

end MoenotesApi
