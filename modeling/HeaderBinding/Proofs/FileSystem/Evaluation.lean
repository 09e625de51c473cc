import HeaderBinding.Proofs.FileSystem.Growth

/-!
# Evaluating where paths lead

Going along a path takes away a component or a link in each step. Here it is one recursion on the
links that are left and another one on the components inside of it. In that form it is evaluated for
a given file system.
-/

namespace HeaderBinding

namespace FileSystem

/-- What a component does on the way along a path. -/
inductive Move (α : Type) where
  | stop (result : α)
  | go (there : Location)
  /-- The way goes on along a link, from the root or from the place before it. -/
  | jump (target : Bytes)

section

variable {α : Type} (move : Location → Bytes → List Bytes → Move α) (arrive : Location → α)
  (tooMany : α)

/-- Goes along components up to a link, and on from there with a given function. -/
def along (jump : Location → List Bytes → α) (here : Location) : List Bytes → α
  | [] => arrive here
  | c :: cs =>
    match move here c cs with
    | .stop result => result
    | .go there => along jump there cs
    | .jump target =>
      jump (if Path.isAbsolute target then [] else here) (Path.components target ++ cs)

/-- Goes along components over no more than a number of links. -/
def overLinks : Nat → Location → List Bytes → α
  | 0 => along move arrive fun _ _ => tooMany
  | links + 1 => along move arrive (overLinks links)

variable {move arrive tooMany}

/-- A function that goes on in each step as `move` says is this one. -/
theorem eq_overLinks {f : Nat → Location → List Bytes → α}
    (nil : ∀ links here, f links here [] = arrive here)
    (cons : ∀ links here c cs, f links here (c :: cs) =
      match move here c cs with
      | .stop result => result
      | .go there => f links there cs
      | .jump target =>
        match links with
        | 0 => tooMany
        | links + 1 =>
          f links (if Path.isAbsolute target then [] else here) (Path.components target ++ cs))
    (links : Nat) (here : Location) (cs : List Bytes) :
    f links here cs = overLinks move arrive tooMany links here cs := by
  induction links, here, cs using walkInduction with
  | nil links here =>
      rw [nil]
      cases links <;> rfl
  | cons links here c cs ih ihlinks =>
      rw [cons]
      cases links with
      | zero =>
          rw [overLinks, along]
          cases move here c cs with
          | go there => exact ih there
          | stop | jump => rfl
      | succ links =>
          rw [overLinks, along]
          cases move here c cs with
          | stop => rfl
          | go there => exact ih there
          | jump target => exact ihlinks _ _ _ rfl

end

variable (fs : FileSystem)

/-! ## Following a path -/

def walkMove (last : LastLink) (here : Location) (c : Bytes) (cs : List Bytes) :
    Move (Except PathError Location) :=
  match fs.turn here c with
  | .error error => .stop (.error error)
  | .ok (.place there) => .go there
  | .ok (.link target) =>
    if cs.isEmpty && last == .keep then .stop (.ok (here ++ [c])) else .jump target

theorem walk_eq_overLinks (last : LastLink) (links : Nat) (here : Location) (cs : List Bytes) :
    fs.walk last links here cs =
      overLinks (fs.walkMove last) .ok (.error .tooManyLinks) links here cs := by
  refine eq_overLinks (f := fs.walk last) (fun _ _ => walk_nil) ?_ links here cs
  intro links here c cs
  rw [walk_cons, walkMove]
  cases fs.turn here c with
  | error => rfl
  | ok turn =>
      cases turn with
      | place => rfl
      | link =>
          by_cases hkeep : (cs.isEmpty && last == .keep) = true
          · simp only [if_pos hkeep]
          · cases links <;> simp only [if_neg hkeep]

theorem find_eq_overLinks (path : Bytes) :
    fs.find path =
      match refused? path with
      | some error => .error error
      | none =>
        match overLinks (fs.walkMove .follow) .ok (.error .tooManyLinks) linkLimit (fs.origin path)
          (Path.components path) with
        | .error error => .error error
        | .ok location =>
          match fs.node? location with
          | some node => .ok (location, node)
          | none => .error .notFound := by
  rw [find, locate, walk_eq_overLinks]
  cases refused? path <;> rfl

/-! ## The place to write to -/

def targetMove (here : Location) (c : Bytes) (cs : List Bytes) :
    Move (Except PathError Location) :=
  if !fs.isDirectory here then .stop (.error .notDirectory)
  else if c = [] ∨ c = ascii "." then .go here
  else if c = ascii ".." then .go here.dropLast
  else if !cs.isEmpty && cs.all List.isEmpty then .stop (.error .isDirectory)
  else if nameLimit < c.length then .stop (.error .nameTooLong)
  else match fs.node? (here ++ [c]) with
    | none => .stop (if cs.isEmpty then .ok (here ++ [c]) else .error .notFound)
    | some (.link path) => .jump path
    | some .directory => .go (here ++ [c])
    | some (.file _ _) => .stop (if cs.isEmpty then .ok (here ++ [c]) else .error .notDirectory)

theorem target_eq_overLinks (links : Nat) (here : Location) (cs : List Bytes) :
    fs.target links here cs =
      overLinks fs.targetMove (fun _ => .error .isDirectory) (.error .tooManyLinks) links here cs := by
  refine eq_overLinks (f := fs.target) (fun _ _ => by rw [target]) ?_ links here cs
  intro links here c cs
  rw [target, targetMove]
  repeat' split
  all_goals simp_all

theorem writePlace_eq_overLinks (path : Bytes) :
    fs.writePlace path =
      match refused? path with
      | some error => .error error
      | none =>
        overLinks fs.targetMove (fun _ => .error .isDirectory) (.error .tooManyLinks) linkLimit
          (fs.origin path) (Path.components path) := by
  unfold writePlace
  cases refused? path with
  | some error => rfl
  | none => exact target_eq_overLinks ..

/-! ## Resolving a path -/

def resolveMove (resolved : Location) (c : Bytes) (cs : List Bytes) :
    Move (Except ResolveError (List Bytes)) :=
  if c = [] ∨ c = ascii "." then .go resolved
  else if c = ascii ".." then .go (resolveParent resolved)
  else match fs.examine (resolved ++ [c]) with
    | .error error => .stop (.error error)
    | .ok (.link target) => .jump target
    | .ok .directory => .go (resolved ++ [c])
    | .ok (.file _ _) => .stop (if cs.isEmpty then .ok (resolved ++ [c]) else .error .notDirectory)

theorem resolveComponents_eq_overLinks (links : Nat) (resolved cs : List Bytes) :
    fs.resolveComponents links resolved cs =
      overLinks fs.resolveMove .ok (.error .tooManyLinks) links resolved cs := by
  refine eq_overLinks (f := fs.resolveComponents) (fun _ _ => by rw [resolveComponents]) ?_ links
    resolved cs
  intro links resolved c cs
  rw [resolveComponents, resolveMove]
  repeat' split
  all_goals simp_all

theorem resolve_eq_overLinks (path : Bytes) :
    fs.resolve path =
      (overLinks fs.resolveMove .ok (.error .tooManyLinks) replacementLimit []
        (Path.components (fs.absolute path))).map fun resolved =>
          Path.absolute (Path.cleanComponents true resolved) := by
  rw [resolve, resolveComponents_eq_overLinks]

end FileSystem

end HeaderBinding
