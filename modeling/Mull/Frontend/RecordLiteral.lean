import Mull.Frontend.RecordNames

/-! The variable that holds a mutant's record: its type, and the type of the literal it is initialised with. -/

namespace Mull.Frontend
open Base

inductive CharType
  | char
  | const (type : CharType)
deriving DecidableEq

structure ConstantArrayType where
  elementType : CharType
  size : Nat
deriving DecidableEq

/-- An array of as many elements as an `APInt` of some width says. -/
def constantArrayType {width : Nat} (type : CharType) (size : BitVec width) : ConstantArrayType where
  elementType := type
  size := size.toNat

structure StringLiteral where
  value : Text
  type : ConstantArrayType
  isRValue : Bool
deriving DecidableEq

structure RecordDecl where
  name : Text
  type : ConstantArrayType
  init : StringLiteral
  sectionName : Text
deriving DecidableEq

/-! The factory's sizes are `unsigned`, so that `size + 1` wraps at 2^32. -/

def getStringLiteralArrayType (type : CharType) (size : UInt32) : ConstantArrayType :=
  constantArrayType type (BitVec.ofNat 32 (size + 1).toNat)

def getConstantArrayType (type : CharType) (size : UInt32) : ConstantArrayType :=
  constantArrayType type (BitVec.ofNat 8 (size + 1).toNat)

def createStringLiteral (value : Text) : StringLiteral where
  value := value
  type := getConstantArrayType (.const .char) (.ofNat value.length)
  isRValue := false

def addMutantStringDefinition (identifier : Text) (mutator line column : Int32) : RecordDecl :=
  let literal := { createStringLiteral identifier with isRValue := true }
  { name := variableName mutator line column
    type := getStringLiteralArrayType (.const .char) (.ofNat identifier.length)
    init := literal
    sectionName := ".mull_mutants".toList }

variable {μ : Type}

/-- Every `perform...Mutation` ends with this. -/
def ASTMutationPoint.recordDecl (point : ASTMutationPoint μ) : RecordDecl :=
  addMutantStringDefinition point.mutationBinaryRecord point.mutationType.toInt point.beginLine
    point.beginColumn

theorem recordDecl_name (point : ASTMutationPoint μ) : point.recordDecl.name = point.recordName := rfl

theorem sourceFilePath_le (point : ASTMutationPoint μ) :
    point.sourceFilePath.length ≤ point.mutationBinaryRecord.length := by
  unfold ASTMutationPoint.mutationBinaryRecord ASTMutationPoint.mutationIdentifier
  simp only [List.length_append, List.length_cons]
  omega

theorem getStringLiteralArrayType_size (type : CharType) (length : Nat) :
    (getStringLiteralArrayType type (.ofNat length)).size = (length + 1) % 2 ^ 32 := by
  simp [getStringLiteralArrayType, constantArrayType, UInt32.toNat_add]

theorem getConstantArrayType_size (type : CharType) (length : Nat) :
    (getConstantArrayType type (.ofNat length)).size = (length + 1) % 2 ^ 8 := by
  simp [getConstantArrayType, constantArrayType, UInt32.toNat_add]

/-- The record and the zero behind it fill the literal and the variable. -/
def HasRoom (point : ASTMutationPoint μ) : Prop :=
  point.recordDecl.init.type.size = point.mutationBinaryRecord.length + 1 ∧
    point.recordDecl.type.size = point.mutationBinaryRecord.length + 1

theorem hasRoom_iff (point : ASTMutationPoint μ) :
    HasRoom point ↔ point.mutationBinaryRecord.length < 255 := by
  have literal := getConstantArrayType_size (.const .char) point.mutationBinaryRecord.length
  have declared := getStringLiteralArrayType_size (.const .char) point.mutationBinaryRecord.length
  constructor
  · rintro ⟨filled, -⟩
    have wrapped := literal.symm.trans filled
    omega
  · intro short
    exact ⟨literal.trans (by omega), declared.trans (by omega)⟩

/-- `a + b` in a file whose path has 255 characters. -/
def deepPoint : ASTMutationPoint Unit where
  mutation := ()
  mutationType := .cxxAddToSub
  identifier := getIdentifier .cxxAddToSub
  sourceFilePath := '/' :: List.replicate 250 'd' ++ ".cpp".toList
  beginLine := 3
  beginColumn := 12
  endLine := 3
  endColumn := 13

theorem not_hasRoom_deepPoint : ¬ HasRoom deepPoint := by
  have path : deepPoint.sourceFilePath.length = 255 := by
    rw [deepPoint, List.length_append, List.length_cons, List.length_replicate]
    rfl
  have long := sourceFilePath_le deepPoint
  rintro ⟨filled, -⟩
  have wrapped :=
    (getConstantArrayType_size (.const .char) deepPoint.mutationBinaryRecord.length).symm.trans filled
  omega

end Mull.Frontend
