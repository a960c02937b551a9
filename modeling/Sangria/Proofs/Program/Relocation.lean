import Sangria.Program

/-!
# Programs at other places

The positions in a program say where its statements stand in the source. A program can be relocated
to where they stand in another (`Block.relocated`), and two programs are the same but for where they
stand if they agree with all positions at the start (`Block.unplaced`).
-/

namespace Sangria

mutual

/-- A statement with all positions inside it moved. -/
def Stmt.relocated (f : Position → Position) : Stmt → Stmt
  | .define g params body => .define g params (Block.relocated f body)
  | .branch c body none => .branch c (Block.relocated f body) none
  | .branch c body (some other) =>
    .branch c (Block.relocated f body) (some (Block.relocated f other))
  | s => s

/-- A block with all positions moved. -/
def Block.relocated (f : Position → Position) : List (Located Stmt) → List (Located Stmt)
  | [] => []
  | ⟨p, s⟩ :: rest => ⟨f p, s.relocated f⟩ :: Block.relocated f rest

end

mutual

/-- A statement with all positions inside it at the start. -/
def Stmt.unplaced : Stmt → Stmt
  | .define f params body => .define f params (Block.unplaced body)
  | .branch c body none => .branch c (Block.unplaced body) none
  | .branch c body (some other) => .branch c (Block.unplaced body) (some (Block.unplaced other))
  | s => s

/-- A block with all positions at the start. -/
def Block.unplaced : List (Located Stmt) → List (Located Stmt)
  | [] => []
  | ⟨_, s⟩ :: rest => ⟨⟨1, 1⟩, s.unplaced⟩ :: Block.unplaced rest

end

theorem Block.unplaced_append (b b' : Block) :
    Block.unplaced (b ++ b') = Block.unplaced b ++ Block.unplaced b' := by
  induction b with
  | nil => rfl
  | cons s rest ih =>
    obtain ⟨p, s⟩ := s
    rw [List.cons_append, Block.unplaced, ih, Block.unplaced, List.cons_append]

theorem Block.relocated_append (f : Position → Position) (b b' : Block) :
    Block.relocated f (b ++ b') = Block.relocated f b ++ Block.relocated f b' := by
  induction b with
  | nil => rfl
  | cons s rest ih =>
    obtain ⟨p, s⟩ := s
    rw [List.cons_append, Block.relocated, ih, Block.relocated, List.cons_append]

theorem Stmt.relocated_branch (f : Position → Position) (c : Expr) (body : Block)
    (otherwise : Option Block) :
    (Stmt.branch c body otherwise).relocated f =
      .branch c (Block.relocated f body) (otherwise.map (Block.relocated f)) := by
  cases otherwise <;> rfl

/-- Where its statements stand is no part of what a block is but for positions. -/
theorem Block.unplaced_relocated (f : Position → Position) (b : Block) :
    Block.unplaced (Block.relocated f b) = Block.unplaced b := by
  induction b using Block.induction with
  | nil => rfl
  | eval p e rest ih => exact congrArg (_ :: ·) ih
  | assign p x op e rest ih => exact congrArg (_ :: ·) ih
  | define p g params body rest ihBody ih =>
    simp only [relocated, Stmt.relocated, unplaced, Stmt.unplaced, ihBody, ih]
  | branch p c body rest ihBody ih =>
    simp only [relocated, Stmt.relocated, unplaced, Stmt.unplaced, ihBody, ih]
  | branchElse p c body other rest ihBody ihOther ih =>
    simp only [relocated, Stmt.relocated, unplaced, Stmt.unplaced, ihBody, ihOther, ih]

theorem Block.relocated_id (b : Block) : Block.relocated id b = b := by
  induction b using Block.induction with
  | nil => rfl
  | eval p e rest ih => exact congrArg (_ :: ·) ih
  | assign p x op e rest ih => exact congrArg (_ :: ·) ih
  | define p g params body rest ihBody ih =>
    simp only [relocated, Stmt.relocated, ihBody, ih, id]
  | branch p c body rest ihBody ih =>
    simp only [relocated, Stmt.relocated, ihBody, ih, id]
  | branchElse p c body other rest ihBody ihOther ih =>
    simp only [relocated, Stmt.relocated, ihBody, ihOther, ih, id]

end Sangria
