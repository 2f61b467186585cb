import Vault.Lib.Collections
import Vault.Lib.GoRuntime

/-!
# Hashing the values of an audited structure

`HashStructure` (audit/hashstructure.go) hands the data of a request or a response to
`reflectwalk.Walk` with a `hashWalker`, which replaces the string values by their hashes as
the walk meets them. The walker keeps stacks that the walk's callbacks push and pop in step:
`loc`, the locations entered; `cs`, the maps and slices entered; `csKey`, the map key or slice
index of the element being walked in each of them; and `key`, the map keys alone. A string
found as a map value or a slice element is stored back through `cs` and `csKey`, with
`SetMapIndex` or through the slice, unless the innermost map key above it is ignored; a
`time.Time` is replaced by its RFC 3339 text the same way, whatever the key.

The model walks a `Node`: strings, numbers, booleans, nil, times, and maps and slices with the
static type of their elements, which decides whether a string can be stored into them. Go
holds a container on `cs` by reference; the model holds the path that reaches it from the
walked value, and the stores write through these paths. A slice's capacity is its length.
The callback's arguments are logged, so that its calls can be counted.

The result (`walk_at`, and `hashStructure_eq` for a whole run): on a map whose maps have
distinct keys and whose strings and times sit in slots that can hold a string (`Fits`), the
walk returns nil, leaves the value equal to `hashValue` of it, and calls the callback once for
each string it replaces, in walk order. A time in a `time.Time` slot, as in `[]time.Time`,
makes the store panic.
-/

namespace Vault.Audit

open GoRuntime

/-- `reflectwalk.Location`. -/
inductive Location where
  | none | map | mapKey | mapValue | slice | sliceElem | array | arrayElem | struct
  | structField | walkLoc
  deriving DecidableEq, Repr

/-- The static type of a map's values or a slice's elements: `interface{}`, `string`,
`time.Time`, or another type, by its name. -/
inductive ElemType where
  | iface
  | string
  | time
  | other (name : String)
  deriving DecidableEq, Repr

/-- Whether a `string` is assignable to a slot of the type. -/
def ElemType.acceptsString : ElemType → Bool
  | .iface | .string => true
  | _ => false

/-- The type's name as reflect's panics print it. -/
def ElemType.goName : ElemType → String
  | .iface => "interface {}"
  | .string => "string"
  | .time => "time.Time"
  | .other name => name

/-- A value of the walked structure, `τ` standing for `time.Time`. A map lists its entries in
the order `MapKeys` returns them. -/
inductive Node (τ : Type) where
  | str (s : String)
  | num (q : ℚ)
  | bool (b : Bool)
  | nil
  | time (t : τ)
  | map (elem : ElemType) (entries : List (String × Node τ))
  | slice (elem : ElemType) (elems : List (Node τ))
  deriving Repr

/-- A map key or a slice index, as `csKey` holds it. -/
inductive Step where
  | key (k : String)
  | index (i : ℕ)
  deriving DecidableEq, Repr

/-- The steps from the walked value to one inside it. -/
abbrev Path := List Step

variable {τ : Type}

/-- The entries with the value of the first of key `k` changed by `g`. -/
def modifyEntry {β : Type} (k : String) (g : β → β) : List (String × β) → List (String × β)
  | [] => []
  | e :: es => if e.1 = k then (e.1, g e.2) :: es else e :: modifyEntry k g es

namespace Node

/-- The value a path reaches. -/
def get? : Node τ → Path → Option (Node τ)
  | v, [] => some v
  | .map _ es, .key k :: p => (es.lookup k).bind fun c => c.get? p
  | .slice _ vs, .index i :: p => vs[i]?.bind fun c => c.get? p
  | _, _ :: _ => none

/-- The value with `f` applied where a path reaches. -/
def modify (f : Node τ → Node τ) : Node τ → Path → Node τ
  | v, [] => f v
  | .map et es, .key k :: p => .map et (modifyEntry k (·.modify f p) es)
  | .slice et vs, .index i :: p => .slice et (vs.modify i fun c => c.modify f p)
  | v, _ :: _ => v

/-- The value with `x` put where a path reaches. -/
def set (d : Node τ) (p : Path) (x : Node τ) : Node τ := d.modify (fun _ => x) p

/-- A map with the entry of key `k` set to `v`, or added at the end. -/
def setEntry (k : String) (v : Node τ) : Node τ → Node τ
  | .map et es =>
    .map et (if k ∈ es.map Prod.fst then modifyEntry k (fun _ => v) es else es ++ [(k, v)])
  | c => c

/-- A slice with element `i` set to `v`. -/
def setIndex (i : ℕ) (v : Node τ) : Node τ → Node τ
  | .slice et vs => .slice et (vs.modify i fun _ => v)
  | c => c

end Node

/-! ## Paths into a value -/

section Entries

variable {β : Type} {k : String} {g g' : β → β} {es done : List (String × β)} {c : β}

theorem lookup_modifyEntry (k' : String) :
    (modifyEntry k g es).lookup k' = if k' = k then (es.lookup k).map g else es.lookup k' := by
  induction es with
  | nil => simp [modifyEntry]
  | cons e es ih =>
    obtain ⟨k₀, v₀⟩ := e
    by_cases h₀ : k₀ = k
    · subst h₀
      by_cases hk : k' = k₀
      · simp [modifyEntry, hk]
      · have hk' : (k' == k₀) = false := beq_false_of_ne hk
        simp [modifyEntry, List.lookup, hk, hk']
    · by_cases hk : k' = k₀
      · subst hk
        simp [modifyEntry, List.lookup, h₀]
      · have hk' : (k' == k₀) = false := beq_false_of_ne hk
        have hkk : (k == k₀) = false := beq_false_of_ne (Ne.symm h₀)
        simp [modifyEntry, List.lookup, h₀, hk', hkk, ih]

theorem modifyEntry_congr (h : es.lookup k = some c) (hg : g c = g' c) :
    modifyEntry k g es = modifyEntry k g' es := by
  induction es with
  | nil => simp at h
  | cons e es ih =>
    obtain ⟨k₀, v₀⟩ := e
    by_cases h₀ : k₀ = k
    · subst h₀
      simp only [List.lookup, beq_self_eq_true, Option.some.injEq] at h
      subst h
      simp [modifyEntry, hg]
    · have hk : (k == k₀) = false := beq_false_of_ne (Ne.symm h₀)
      simp only [List.lookup, hk] at h
      simp [modifyEntry, h₀, ih h]

theorem modifyEntry_modifyEntry :
    modifyEntry k g (modifyEntry k g' es) = modifyEntry k (g ∘ g') es := by
  induction es with
  | nil => rfl
  | cons e es ih =>
    by_cases h₀ : e.1 = k <;> simp [modifyEntry, h₀, ih]

theorem modifyEntry_id : modifyEntry k id es = es := by
  induction es with
  | nil => rfl
  | cons e es ih =>
    by_cases h₀ : e.1 = k
    · simp only [modifyEntry, if_pos h₀, id]
    · simp [modifyEntry, h₀, ih]

theorem map_fst_modifyEntry : (modifyEntry k g es).map Prod.fst = es.map Prod.fst := by
  induction es with
  | nil => rfl
  | cons e es ih =>
    by_cases h₀ : e.1 = k <;> simp [modifyEntry, h₀, ih]

theorem modifyEntry_append_cons (hk : k ∉ done.map Prod.fst) (v : β) (rest : List (String × β)) :
    modifyEntry k g (done ++ (k, v) :: rest) = done ++ (k, g v) :: rest := by
  induction done with
  | nil => simp [modifyEntry]
  | cons e done ih =>
    have h₀ : e.1 ≠ k := fun h => hk (by simp [← h])
    simp only [List.map_cons, List.mem_cons, not_or] at hk
    simp [modifyEntry, h₀, ih hk.2]

theorem lookup_append_cons (hk : k ∉ done.map Prod.fst) (v : β) (rest : List (String × β)) :
    (done ++ (k, v) :: rest).lookup k = some v := by
  induction done with
  | nil => simp
  | cons e done ih =>
    have h₀ : (k == e.1) = false := beq_false_of_ne fun h => hk (by simp [h])
    simp only [List.map_cons, List.mem_cons, not_or] at hk
    simp [List.lookup, h₀, ih hk.2]

end Entries

namespace Node

variable {d c : Node τ} {f g : Node τ → Node τ} {p q : Path}

theorem get?_append (d : Node τ) (p q : Path) :
    d.get? (p ++ q) = (d.get? p).bind (·.get? q) := by
  induction p generalizing d with
  | nil => rfl
  | cons st p ih =>
    cases d <;> cases st <;> simp [get?, ih, Option.bind_assoc]

theorem modify_append (f : Node τ → Node τ) (d : Node τ) (p q : Path) :
    d.modify f (p ++ q) = d.modify (·.modify f q) p := by
  induction p generalizing d with
  | nil => rfl
  | cons st p ih =>
    cases d <;> cases st <;> simp [modify, ih]

theorem get?_modify_self (h : d.get? p = some c) : (d.modify f p).get? p = some (f c) := by
  induction p generalizing d with
  | nil =>
    cases h
    rfl
  | cons st p ih =>
    cases d <;> cases st <;> simp only [get?, reduceCtorEq] at h
    case map.key et es k =>
      obtain ⟨c', hc', hget⟩ := Option.bind_eq_some_iff.mp h
      simp [modify, get?, lookup_modifyEntry, hc', ih hget]
    case slice.index et vs i =>
      obtain ⟨c', hc', hget⟩ := Option.bind_eq_some_iff.mp h
      simp [modify, get?, hc', ih hget]

/-- Two updates that agree on the value a path reaches give the same result. -/
theorem modify_congr (h : d.get? p = some c) (hfg : f c = g c) :
    d.modify f p = d.modify g p := by
  induction p generalizing d with
  | nil =>
    cases h
    exact hfg
  | cons st p ih =>
    cases d <;> cases st <;> simp only [get?, reduceCtorEq] at h
    case map.key et es k =>
      obtain ⟨c', hc', hget⟩ := Option.bind_eq_some_iff.mp h
      simp only [modify]
      refine congrArg _ (modifyEntry_congr hc' ?_)
      exact ih hget
    case slice.index et vs i =>
      obtain ⟨c', hc', hget⟩ := Option.bind_eq_some_iff.mp h
      simp only [modify]
      congr 1
      apply List.ext_getElem?
      intro n
      simp only [List.getElem?_modify]
      by_cases hn : i = n
      · subst hn
        simp [hc', ih hget]
      · simp [hn]

theorem modify_modify (f g : Node τ → Node τ) (d : Node τ) (p : Path) :
    (d.modify f p).modify g p = d.modify (g ∘ f) p := by
  induction p generalizing d with
  | nil => rfl
  | cons st p ih =>
    cases d <;> cases st <;> simp only [modify]
    case map.key et es k =>
      rw [modifyEntry_modifyEntry]
      congr 2
      funext x
      exact ih x
    case slice.index et vs i =>
      rw [List.modify_modify_eq]
      congr 2
      funext x
      exact ih x

theorem modify_id (d : Node τ) (p : Path) : d.modify id p = d := by
  induction p generalizing d with
  | nil => rfl
  | cons st p ih =>
    have hid : (fun x : Node τ => x.modify id p) = id := funext ih
    cases d <;> cases st <;> simp only [modify]
    case map.key et es k => rw [hid, modifyEntry_id]
    case slice.index et vs i => rw [hid, List.modify_id]

theorem modify_eq_self (h : d.get? p = some c) (hf : f c = c) : d.modify f p = d :=
  calc d.modify f p = d.modify id p := modify_congr h hf
    _ = d := modify_id d p

theorem set_eq_self (h : d.get? p = some c) : d.set p c = d :=
  modify_eq_self h rfl

/-- A store below a path changes what the path reaches by the store below it. -/
theorem get?_set_append (h : d.get? p = some c) (x : Node τ) :
    (d.set (p ++ q) x).get? p = some (c.set q x) := by
  rw [set, modify_append, get?_modify_self h]
  rfl

/-- A store at a path overwrites an earlier store below it. -/
theorem set_set_append (x y : Node τ) : (d.set (p ++ q) x).set p y = d.set p y := by
  rw [set, set, modify_append, modify_modify]
  rfl

end Node

/-! ## The reflect calls that store into the walked value -/

/-- `m.SetMapIndex(mk, reflect.ValueOf(val))` on the map at path `m`: the value must be
assignable to the map's element type and the key to `string`. -/
def setMapIndex (d : Node τ) (m : Path) (mk : Step) (val : String) : Go (Node τ) :=
  match d.get? m, mk with
  | some (.map et _), .key k =>
    if et.acceptsString then .ok (d.modify (Node.setEntry k (.str val)) m)
    else .error (.panic ("reflect.Value.SetMapIndex: value of type string is not assignable " ++
      "to type " ++ et.goName))
  | some (.map _ _), .index _ =>
    .error (.panic "reflect.Value.SetMapIndex: value of type int is not assignable to type string")
  | _, _ => .error (.panic "reflect: call of reflect.Value.SetMapIndex on a non-map Value")

/-- `s.Slice(si, si+1).Index(0).Set(reflect.ValueOf(val))` on the slice at path `s`. -/
def setSliceElem (d : Node τ) (s : Path) (si : ℕ) (val : String) : Go (Node τ) :=
  match d.get? s with
  | some (.slice et vs) =>
    if si < vs.length then
      if et.acceptsString then .ok (d.modify (Node.setIndex si (.str val)) s)
      else .error (.panic ("reflect.Set: value of type string is not assignable to type " ++
        et.goName))
    else .error (.panic "reflect.Value.Slice: slice index out of bounds")
  | _ => .error (.panic "reflect: call of reflect.Value.Slice on a non-slice Value")

/-- `int(v.Int())` on an entry of `csKey`; a map key is a string, on which `Int` panics. -/
def Step.toInt : Step → Go ℕ
  | .index i => .ok i
  | .key _ => .error (.panic "reflect: call of reflect.Value.Int on string Value")

/-- `xs[len(xs)-1]`. -/
def lastOf {α : Type} (xs : List α) : Go α := indexInt xs ((xs.length : ℤ) - 1)

/-- `xs[:len(xs)-1]`. -/
def popLast {α : Type} (xs : List α) : Go (List α) :=
  if xs = [] then .error (.panic "slice bounds out of range [:-1]") else .ok xs.dropLast

/-! ## The walker -/

/-- The `hashWalker`'s stacks, with the walked value as the stores have left it and the
arguments the callback has been called with. -/
structure WalkState (τ : Type) where
  key : List String
  loc : List Location
  cs : List Path
  csKey : List Step
  data : Node τ
  calls : List String

namespace WalkState

variable (cb : String → String) (ignoredKeys : List String) (format : τ → String)

/-- `Enter`. -/
def enter (l : Location) (s : WalkState τ) : WalkState τ := { s with loc := s.loc ++ [l] }

/-- `Exit`: the location is popped, and with a map or a slice its container, with a map value
its key, with an element its key or index. -/
def exit (l : Location) (s : WalkState τ) : Go (WalkState τ) := do
  let s := { s with loc := ← popLast s.loc }
  match l with
  | .map | .slice => pure { s with cs := ← popLast s.cs }
  | .mapValue => pure { s with key := ← popLast s.key, csKey := ← popLast s.csKey }
  | .sliceElem => pure { s with csKey := ← popLast s.csKey }
  | _ => pure s

/-- `Map`, for the map at path `p`. -/
def map (p : Path) (s : WalkState τ) : WalkState τ := { s with cs := s.cs ++ [p] }

/-- `MapElem`: the key goes on `csKey` and on `key`. -/
def mapElem (k : String) (s : WalkState τ) : WalkState τ :=
  { s with csKey := s.csKey ++ [.key k], key := s.key ++ [k] }

/-- `Slice`, for the slice at path `p`. -/
def slice (p : Path) (s : WalkState τ) : WalkState τ := { s with cs := s.cs ++ [p] }

/-- `SliceElem`: the index goes on `csKey`. -/
def sliceElem (i : ℕ) (s : WalkState τ) : WalkState τ := { s with csKey := s.csKey ++ [.index i] }

/-- The store of a string into the element being walked, shared by `Struct` and `Primitive`:
through `SetMapIndex` at location `MapValue`, through the slice at `SliceElem`, and none at
another location. The container is the last on `cs`, and its key is read from `csKey` at the
same position. -/
def storeString (s : WalkState τ) (l : Location) (val : String) : Option (Go (WalkState τ)) :=
  match l with
  | .mapValue => some do
    let m ← lastOf s.cs
    let mk ← indexInt s.csKey ((s.cs.length : ℤ) - 1)
    let data ← setMapIndex s.data m mk val
    pure { s with data := data }
  | .sliceElem => some do
    let sp ← lastOf s.cs
    let si ← (← indexInt s.csKey ((s.cs.length : ℤ) - 1)).toInt
    let data ← setSliceElem s.data sp si val
    pure { s with data := data }
  | _ => none

/-- `Struct` on a `time.Time`: its RFC 3339 text replaces it in the container it was found in,
the location before the struct's own telling which. -/
def struct (t : τ) (s : WalkState τ) : Go (WalkState τ) :=
  if s.loc.length < 3 then .error (.error "structs as direct inputs not supported")
  else do
    let l ← indexInt s.loc ((s.loc.length : ℤ) - 2)
    (storeString s l (format t)).getD (pure s)

/-- `Primitive`: a string that is not a map key, and whose innermost map key is not ignored, is
replaced by the callback's value. -/
def primitive (v : Node τ) (s : WalkState τ) : Go (WalkState τ) := do
  let l ← lastOf s.loc
  if l = .mapKey then return s
  match v with
  | .str str =>
    let currentKey ← lastOf s.key
    if currentKey ∈ ignoredKeys then return s
    let s := { s with calls := s.calls ++ [str] }
    (storeString s l (cb str)).getD
      (.error (.panic "reflect: reflect.Value.Set using unaddressable value"))
  | _ => return s

end WalkState

/-! ## The walker's state along a path -/

/-- The map keys a path passes. -/
def keysOf : Path → List String
  | [] => []
  | .key k :: p => k :: keysOf p
  | .index _ :: p => keysOf p

/-- The locations a step enters: the container, then its element. -/
def stepLocs : Step → List Location
  | .key _ => [.map, .mapValue]
  | .index _ => [.slice, .sliceElem]

/-- The location of the element a step reaches. -/
def stepLoc : Step → Location
  | .key _ => .mapValue
  | .index _ => .sliceElem

/-- The containers a path passes, each by the path that reaches it. -/
def containersOf : Path → List Path
  | [] => []
  | st :: p => [] :: (containersOf p).map (st :: ·)

/-- The innermost map key of a path. -/
def innerKey (p : Path) : String := (keysOf p).getLast?.getD ""

/-- The walker's state while it walks the value at path `p`. -/
def WalkState.at (p : Path) (data : Node τ) (calls : List String) : WalkState τ :=
  ⟨keysOf p, .walkLoc :: p.flatMap stepLocs, containersOf p, p, data, calls⟩

/-- Whether a string can be stored at the end of step `st` out of a container: the step is a
key of a map or an index of a slice, whose element type takes a string. -/
def Node.StoresAt : Node τ → Step → Prop
  | .map et es, .key k => et.acceptsString = true ∧ k ∈ es.map Prod.fst
  | .slice et vs, .index i => et.acceptsString = true ∧ i < vs.length
  | _, _ => False

section Stacks

variable {p q : Path} {st : Step} {k : String} {i : ℕ}

@[simp] theorem keysOf_append_key : keysOf (p ++ [.key k]) = keysOf p ++ [k] := by
  induction p with
  | nil => rfl
  | cons st p ih => cases st <;> simp [keysOf, ih]

@[simp] theorem keysOf_append_index : keysOf (p ++ [.index i]) = keysOf p := by
  induction p with
  | nil => rfl
  | cons st p ih => cases st <;> simp [keysOf, ih]

@[simp] theorem containersOf_append : containersOf (p ++ [st]) = containersOf p ++ [p] := by
  induction p with
  | nil => rfl
  | cons st' p ih => simp [containersOf, ih]

@[simp] theorem length_containersOf : (containersOf p).length = p.length := by
  induction p with
  | nil => rfl
  | cons st p ih => simp [containersOf, ih]

theorem innerKey_append_key : innerKey (p ++ [.key k]) = k := by
  simp [innerKey]

theorem innerKey_append_index : innerKey (p ++ [.index i]) = innerKey p := by
  simp [innerKey]

end Stacks

/-! ## The stores -/

section Stores

variable {d : Node τ} {q : Path} {et : ElemType} {val : String}

/-- `SetMapIndex` into an entry the map holds, of a type that takes a string, is the store at
the entry's path. -/
theorem setMapIndex_eq {es : List (String × Node τ)} {k : String} (h : d.get? q = some (.map et es))
    (hacc : et.acceptsString = true) (hk : k ∈ es.map Prod.fst) :
    setMapIndex d q (.key k) val = .ok (d.set (q ++ [.key k]) (.str val)) := by
  have hentry : Node.setEntry k (.str val) (.map et es) =
      (Node.map et es).modify (fun _ => .str val) [.key k] := by
    simp [Node.setEntry, Node.modify, hk]
  simp only [setMapIndex, h, hacc, if_true]
  rw [Node.set, Node.modify_append]
  exact congrArg _ (Node.modify_congr h hentry)

/-- The store into an element of a slice, of a type that takes a string, is the store at the
element's path. -/
theorem setSliceElem_eq {vs : List (Node τ)} {i : ℕ} (h : d.get? q = some (.slice et vs))
    (hacc : et.acceptsString = true) (hi : i < vs.length) :
    setSliceElem d q i val = .ok (d.set (q ++ [.index i]) (.str val)) := by
  have helem : Node.setIndex i (.str val) (.slice et vs) =
      (Node.slice et vs).modify (fun _ => .str val) [.index i] := by
    simp [Node.setIndex, Node.modify]
  simp only [setSliceElem, h, hi, hacc, if_true]
  rw [Node.set, Node.modify_append]
  exact congrArg _ (Node.modify_congr h helem)

end Stores

section Walk

variable (cb : String → String) (ignoredKeys : List String) (format : τ → String)

mutual

/-- `walk` of reflectwalk on the value at path `p`, with the hash walker's callbacks: a map
(`walkMap`) and a slice (`walkSlice`) are entered and their elements walked in order, a time
is handed to `Struct`, which skips its fields, and the rest to `Primitive`. -/
def walk (p : Path) : Node τ → WalkState τ → Go (WalkState τ)
  | .map _ es, s => do
    let s ← walkMapEntries p es ((s.enter .map).map p)
    s.exit .map
  | .slice _ vs, s => do
    let s ← walkSliceElems p 0 vs ((s.enter .slice).slice p)
    s.exit .slice
  | .time t, s => do
    let s ← (s.enter .struct).struct format t
    s.exit .struct
  | v, s => s.primitive cb ignoredKeys v

/-- The loop of `walkMap`: for each entry, `MapElem`, the key walked at `MapKey`, then the
value at `MapValue`. -/
def walkMapEntries (p : Path) : List (String × Node τ) → WalkState τ → Go (WalkState τ)
  | [], s => pure s
  | (k, v) :: es, s => do
    let s ← ((s.mapElem k).enter .mapKey).primitive cb ignoredKeys (.str k)
    let s ← s.exit .mapKey
    let s ← walk (p ++ [.key k]) v (s.enter .mapValue)
    let s ← s.exit .mapValue
    walkMapEntries p es s

/-- The loop of `walkSlice`: for each element, `SliceElem`, then the element at `SliceElem`. -/
def walkSliceElems (p : Path) (i : ℕ) : List (Node τ) → WalkState τ → Go (WalkState τ)
  | [], s => pure s
  | v :: vs, s => do
    let s ← walk (p ++ [.index i]) v ((s.sliceElem i).enter .sliceElem)
    let s ← s.exit .sliceElem
    walkSliceElems p (i + 1) vs s

end

/-- `HashStructure`: the walked value as the walk leaves it, with the callback's arguments, or
the error or panic that stopped the walk. -/
def hashStructure (d : Node τ) : Go (Node τ × List String) := do
  let s ← walk cb ignoredKeys format [] d ((⟨[], [], [], [], d, []⟩ : WalkState τ).enter .walkLoc)
  let s ← s.exit .walkLoc
  pure (s.data, s.calls)

end Walk

/-! ## What the walk leaves -/

namespace Node

/-- A string or a time: the values the walk replaces by a string. -/
def isText : Node τ → Bool
  | .str _ | .time _ => true
  | _ => false

def isMap : Node τ → Bool
  | .map _ _ => true
  | _ => false

mutual

/-- Whether the walk can store into a value: its maps have distinct keys, and every string and
time in it is held by a map or a slice whose elements take a string. -/
def fits : Node τ → Bool
  | .map et es => decide (es.map Prod.fst).Nodup && entriesFit et es
  | .slice et vs => elemsFit et vs
  | _ => true

def entriesFit (et : ElemType) : List (String × Node τ) → Bool
  | [] => true
  | (_, v) :: es => (!v.isText || et.acceptsString) && v.fits && entriesFit et es

def elemsFit (et : ElemType) : List (Node τ) → Bool
  | [] => true
  | v :: vs => (!v.isText || et.acceptsString) && v.fits && elemsFit et vs

end

end Node

section Spec

variable (cb : String → String) (ignoredKeys : List String) (format : τ → String)

mutual

/-- The value the walk leaves in place of `v`, `k` being the innermost map key above it: a
string becomes the callback's value unless `k` is ignored, a time its RFC 3339 text, maps keep
their keys and slices their lengths, and every other value stays. -/
def hashValue (k : String) : Node τ → Node τ
  | .str s => if k ∈ ignoredKeys then .str s else .str (cb s)
  | .time t => .str (format t)
  | .map et es => .map et (hashEntries es)
  | .slice et vs => .slice et (hashElems k vs)
  | v => v

def hashEntries : List (String × Node τ) → List (String × Node τ)
  | [] => []
  | (k, v) :: es => (k, hashValue k v) :: hashEntries es

def hashElems (k : String) : List (Node τ) → List (Node τ)
  | [] => []
  | v :: vs => hashValue k v :: hashElems k vs

end

mutual

/-- The strings the callback is called with, in walk order. -/
def hashedStrings (k : String) : Node τ → List String
  | .str s => if k ∈ ignoredKeys then [] else [s]
  | .map _ es => hashedEntries es
  | .slice _ vs => hashedElems k vs
  | _ => []

def hashedEntries : List (String × Node τ) → List String
  | [] => []
  | (k, v) :: es => hashedStrings k v ++ hashedEntries es

def hashedElems (k : String) : List (Node τ) → List String
  | [] => []
  | v :: vs => hashedStrings k v ++ hashedElems k vs

end

variable {cb ignoredKeys format}

@[simp] theorem map_fst_hashEntries (es : List (String × Node τ)) :
    (hashEntries cb ignoredKeys format es).map Prod.fst = es.map Prod.fst := by
  induction es with
  | nil => rfl
  | cons e es ih => simp [hashEntries, ih]

@[simp] theorem length_hashElems (k : String) (vs : List (Node τ)) :
    (hashElems cb ignoredKeys format k vs).length = vs.length := by
  induction vs with
  | nil => rfl
  | cons v vs ih => simp [hashElems, ih]

theorem lookup_hashEntries (es : List (String × Node τ)) (k : String) :
    (hashEntries cb ignoredKeys format es).lookup k =
      (es.lookup k).map (hashValue cb ignoredKeys format k) := by
  induction es with
  | nil => rfl
  | cons e es ih =>
    obtain ⟨k₀, v₀⟩ := e
    by_cases hk : k = k₀
    · subst hk
      simp [hashEntries, List.lookup]
    · have hk' : (k == k₀) = false := beq_false_of_ne hk
      simp [hashEntries, List.lookup, hk', ih]

theorem getElem?_hashElems (k : String) (vs : List (Node τ)) (i : ℕ) :
    (hashElems cb ignoredKeys format k vs)[i]? = vs[i]?.map (hashValue cb ignoredKeys format k) := by
  induction vs generalizing i with
  | nil => rfl
  | cons v vs ih => cases i <;> simp [hashElems, ih]

/-- What `hashValue` leaves at each path: what the value held there, hashed under the innermost
map key above it. So the shape is kept everywhere, each string is replaced by the callback's
value unless its innermost key is ignored, and each time by its text. -/
theorem get?_hashValue {d v : Node τ} {p : Path} (k : String) (h : d.get? p = some v) :
    (hashValue cb ignoredKeys format k d).get? p =
      some (hashValue cb ignoredKeys format ((keysOf p).getLast?.getD k) v) := by
  induction p generalizing d k with
  | nil =>
    cases h
    rfl
  | cons st p ih =>
    cases d <;> cases st <;> simp only [Node.get?, reduceCtorEq] at h
    case map.key et es k' =>
      obtain ⟨c, hc, hget⟩ := Option.bind_eq_some_iff.mp h
      simp [hashValue, Node.get?, lookup_hashEntries, hc, ih k' hget, keysOf, List.getLast?_cons]
    case slice.index et vs i =>
      obtain ⟨c, hc, hget⟩ := Option.bind_eq_some_iff.mp h
      simp [hashValue, Node.get?, getElem?_hashElems, hc, ih k hget, keysOf]

end Spec

/-! ## The callbacks along a path -/

section Callbacks

theorem lastOf_append {α : Type} (xs : List α) (x : α) : lastOf (xs ++ [x]) = .ok x := by
  simp [lastOf, indexInt, index]

theorem lastOf_eq_getLast {α : Type} {xs : List α} (h : xs ≠ []) :
    lastOf xs = .ok (xs.getLast h) := by
  have hlast := lastOf_append xs.dropLast (xs.getLast h)
  rwa [List.dropLast_append_getLast h] at hlast

/-- `xs[len(xs)-2]`, the element before the last. -/
theorem indexInt_append_pair {α : Type} (xs : List α) (a b : α) :
    indexInt (xs ++ [a, b]) (((xs ++ [a, b]).length : ℤ) - 2) = .ok a := by
  have hi : ((xs ++ [a, b]).length : ℤ) - 2 = (xs.length : ℕ) := by
    simp only [List.length_append, List.length_cons, List.length_nil]
    omega
  rw [hi]
  simp [indexInt, index]

theorem popLast_append {α : Type} (xs : List α) (x : α) : popLast (xs ++ [x]) = .ok xs := by
  simp [popLast]

namespace WalkState

variable (cb : String → String) (ignoredKeys : List String) (format : τ → String)
variable {p q : Path} {st : Step} {d cont : Node τ} {c : List String} {k : String} {i : ℕ}

/-- Entering a location that owns no stack entry and leaving it again changes nothing. -/
theorem exit_enter {l : Location} (hl : l ∈ [Location.mapKey, .struct, .walkLoc])
    (s : WalkState τ) : (s.enter l).exit l = .ok s := by
  simp only [List.mem_cons, List.not_mem_nil, or_false] at hl
  rcases hl with rfl | rfl | rfl <;> simp [exit, enter, popLast]

/-- A map key is walked as a primitive and left alone. -/
theorem primitive_mapKey (s : WalkState τ) (v : Node τ) :
    (s.enter .mapKey).primitive cb ignoredKeys v = .ok (s.enter .mapKey) := by
  simp only [primitive, enter, lastOf_append]
  rfl

theorem enter_mapValue_at :
    ((((WalkState.at p d c).enter .map).map p).mapElem k).enter .mapValue =
      WalkState.at (p ++ [.key k]) d c := by
  simp [WalkState.at, enter, map, mapElem, stepLocs]

theorem exit_mapValue_at :
    (WalkState.at (p ++ [.key k]) d c).exit .mapValue =
      .ok (((WalkState.at p d c).enter .map).map p) := by
  simp [WalkState.at, exit, enter, map, stepLocs, popLast, List.dropLast_cons_of_ne_nil]

theorem exit_map_at :
    (((WalkState.at p d c).enter .map).map p).exit .map = .ok (WalkState.at p d c) := by
  simp [WalkState.at, exit, enter, map, popLast, List.dropLast_cons_of_ne_nil]

theorem enter_sliceElem_at :
    ((((WalkState.at p d c).enter .slice).slice p).sliceElem i).enter .sliceElem =
      WalkState.at (p ++ [.index i]) d c := by
  simp [WalkState.at, enter, slice, sliceElem, stepLocs]

theorem exit_sliceElem_at :
    (WalkState.at (p ++ [.index i]) d c).exit .sliceElem =
      .ok (((WalkState.at p d c).enter .slice).slice p) := by
  simp [WalkState.at, exit, enter, slice, stepLocs, popLast, List.dropLast_cons_of_ne_nil]

theorem exit_slice_at :
    (((WalkState.at p d c).enter .slice).slice p).exit .slice = .ok (WalkState.at p d c) := by
  simp [WalkState.at, exit, enter, slice, popLast, List.dropLast_cons_of_ne_nil]

/-- The last location of the state at a path: `WalkLoc` at the top, and the location of the
element the last step reaches below it; never `MapKey`. -/
theorem lastOf_loc_at : ∃ l, lastOf (WalkState.at p d c).loc = .ok l ∧ l ≠ .mapKey := by
  have hne : (WalkState.at p d c).loc ≠ [] := List.cons_ne_nil _ _
  refine ⟨_, lastOf_eq_getLast hne, fun h => ?_⟩
  have hmem := List.getLast_mem hne
  rw [h] at hmem
  simp only [WalkState.at, List.mem_cons, reduceCtorEq, false_or, List.mem_flatMap] at hmem
  obtain ⟨st, -, hst⟩ := hmem
  cases st <;> simp [stepLocs] at hst

theorem lastOf_loc_at_append :
    lastOf (WalkState.at (q ++ [st]) d c).loc = .ok (stepLoc st) := by
  have hne : (WalkState.at (q ++ [st]) d c).loc ≠ [] := List.cons_ne_nil _ _
  rw [lastOf_eq_getLast hne]
  cases st <;> simp [WalkState.at, stepLocs, stepLoc]

theorem lastOf_keysOf (h : keysOf p ≠ []) : lastOf (keysOf p) = .ok (innerKey p) := by
  rw [lastOf_eq_getLast h, innerKey, List.getLast?_eq_some_getLast h]
  rfl

/-- The store into the element a state's stacks point at. -/
theorem storeString_at (s : WalkState τ) (hcs : s.cs = containersOf (q ++ [st]))
    (hkey : s.csKey = q ++ [st]) (hget : s.data.get? q = some cont) (hst : cont.StoresAt st)
    (val : String) :
    s.storeString (stepLoc st) val =
      some (.ok { s with data := s.data.set (q ++ [st]) (.str val) }) := by
  -- the container is the last on `cs`, and its key is read at the same position of `csKey`
  have hlast : lastOf s.cs = .ok q := by
    rw [hcs, containersOf_append, lastOf_append]
  have hidx : indexInt s.csKey ((s.cs.length : ℤ) - 1) = .ok st := by
    rw [hcs, hkey, length_containersOf]
    simp [indexInt, index]
  cases st with
  | key k =>
    obtain ⟨et, es, rfl⟩ : ∃ et es, cont = .map et es := by
      cases cont <;> simp_all [Node.StoresAt]
    simp only [storeString, stepLoc, hlast, hidx, ok_bind, setMapIndex_eq hget hst.1 hst.2]
    rfl
  | index i =>
    obtain ⟨et, vs, rfl⟩ : ∃ et vs, cont = .slice et vs := by
      cases cont <;> simp_all [Node.StoresAt]
    simp only [storeString, stepLoc, hlast, hidx, ok_bind, Step.toInt,
      setSliceElem_eq hget hst.1 hst.2]
    rfl

/-- A value that is not a string is left alone. -/
theorem primitive_at_of_not_str {v : Node τ} (hv : ∀ s, v ≠ .str s) :
    (WalkState.at p d c).primitive cb ignoredKeys v = .ok (WalkState.at p d c) := by
  obtain ⟨l, hl, hne⟩ := lastOf_loc_at (p := p) (d := d) (c := c)
  cases v <;> simp_all [primitive]

/-- A string is replaced by the callback's value, unless its innermost map key is ignored. -/
theorem primitive_str_at (hget : d.get? q = some cont) (hst : cont.StoresAt st)
    (hkeys : keysOf (q ++ [st]) ≠ []) (str : String) :
    (WalkState.at (q ++ [st]) d c).primitive cb ignoredKeys (.str str) =
      .ok (if innerKey (q ++ [st]) ∈ ignoredKeys then WalkState.at (q ++ [st]) d c
        else WalkState.at (q ++ [st]) (d.set (q ++ [st]) (.str (cb str))) (c ++ [str])) := by
  have hloc : stepLoc st ≠ .mapKey := by
    cases st <;> simp [stepLoc]
  have hstore := storeString_at (WalkState.at (q ++ [st]) d (c ++ [str])) rfl rfl hget hst (cb str)
  have hkey : lastOf (WalkState.at (q ++ [st]) d c).key = .ok (innerKey (q ++ [st])) :=
    lastOf_keysOf hkeys
  simp only [primitive, lastOf_loc_at_append, hloc, if_false, ok_bind, hkey]
  split_ifs with hign
  · rfl
  · -- the state with the call logged is the state at the same path
    show ((WalkState.at (q ++ [st]) d (c ++ [str])).storeString (stepLoc st) (cb str)).getD _ = _
    rw [hstore]
    rfl

/-- A time is replaced by its RFC 3339 text. -/
theorem struct_at (hget : d.get? q = some cont) (hst : cont.StoresAt st) (t : τ) :
    ((WalkState.at (q ++ [st]) d c).enter .struct).struct format t =
      .ok ((WalkState.at (q ++ [st]) (d.set (q ++ [st]) (.str (format t))) c).enter .struct) := by
  -- the location before the struct's own is that of the element the time was found as
  have hlen : ¬((WalkState.at (q ++ [st]) d c).enter .struct).loc.length < 3 := by
    cases st <;> simp [WalkState.at, enter, stepLocs]
  have hloc : indexInt ((WalkState.at (q ++ [st]) d c).enter .struct).loc
      ((((WalkState.at (q ++ [st]) d c).enter .struct).loc.length : ℤ) - 2) = .ok (stepLoc st) := by
    have hshape : ((WalkState.at (q ++ [st]) d c).enter .struct).loc =
        (.walkLoc :: q.flatMap stepLocs ++ (stepLocs st).take 1) ++ [stepLoc st, .struct] := by
      cases st <;> simp [WalkState.at, enter, stepLocs, stepLoc]
    rw [hshape]
    exact indexInt_append_pair _ _ _
  have hstore := storeString_at ((WalkState.at (q ++ [st]) d c).enter .struct) rfl rfl hget hst
    (format t)
  simp only [struct, hlen, if_false, hloc, ok_bind, hstore]
  rfl

end WalkState

end Callbacks

/-! ## The walk -/

section Run

variable (cb : String → String) (ignoredKeys : List String) (format : τ → String)

mutual

/-- The walk of a value that fits, from the state at its path, stores `hashValue` of the value
there and calls the callback with `hashedStrings` of it. A string needs a map key above it,
and a string or a time a container that takes a string. -/
theorem walk_at (p : Path) (v d : Node τ) (c : List String) (hget : d.get? p = some v)
    (hfits : v.fits = true) (hkeys : keysOf p ≠ [] ∨ v.isMap = true)
    (htext : v.isText = true →
      ∃ q st cont, p = q ++ [st] ∧ d.get? q = some cont ∧ cont.StoresAt st) :
    walk cb ignoredKeys format p v (WalkState.at p d c) =
      .ok (WalkState.at p (d.set p (hashValue cb ignoredKeys format (innerKey p) v))
        (c ++ hashedStrings ignoredKeys (innerKey p) v)) := by
  match v with
  | .str s =>
    obtain ⟨q, st, cont, rfl, hq, hst⟩ := htext rfl
    have hk : keysOf (q ++ [st]) ≠ [] := hkeys.resolve_right (by simp [Node.isMap])
    simp only [walk, WalkState.primitive_str_at cb ignoredKeys hq hst hk, hashValue, hashedStrings]
    split_ifs with hign
    · rw [Node.set_eq_self hget, List.append_nil]
    · rfl
  | .time t =>
    obtain ⟨q, st, cont, rfl, hq, hst⟩ := htext rfl
    simp only [walk, WalkState.struct_at format hq hst, ok_bind,
      WalkState.exit_enter (l := .struct) (by simp), hashValue, hashedStrings, List.append_nil]
  | .map et es =>
    simp only [Node.fits, Bool.and_eq_true, decide_eq_true_eq] at hfits
    simp only [walk, walkMapEntries_at p et [] es d c hget hfits.1 hfits.2, ok_bind,
      WalkState.exit_map_at, hashValue, hashedStrings, List.nil_append]
  | .slice et vs =>
    have hk : keysOf p ≠ [] := hkeys.resolve_right (by simp [Node.isMap])
    simp only [walk, walkSliceElems_at p et [] vs d c 0 rfl hget hk hfits, ok_bind,
      WalkState.exit_slice_at, hashValue, hashedStrings, List.nil_append]
  | .num _ | .bool _ | .nil =>
    simp only [walk, hashValue, hashedStrings, Node.set_eq_self hget, List.append_nil]
    exact WalkState.primitive_at_of_not_str cb ignoredKeys (by simp)
termination_by structural v

/-- The loop over a map's entries, `pre` having been walked, walks the rest in turn. -/
theorem walkMapEntries_at (p : Path) (et : ElemType) (pre es : List (String × Node τ))
    (d : Node τ) (c : List String) (hget : d.get? p = some (.map et (pre ++ es)))
    (hnd : ((pre ++ es).map Prod.fst).Nodup) (hfits : Node.entriesFit et es = true) :
    walkMapEntries cb ignoredKeys format p es (((WalkState.at p d c).enter .map).map p) =
      .ok (((WalkState.at p (d.set p (.map et (pre ++ hashEntries cb ignoredKeys format es)))
        (c ++ hashedEntries ignoredKeys es)).enter .map).map p) := by
  match es with
  | [] =>
    rw [List.append_nil] at hget
    simp only [walkMapEntries, hashEntries, hashedEntries, List.append_nil, Node.set_eq_self hget]
    rfl
  | (k, v) :: es =>
    simp only [Node.entriesFit, Bool.and_eq_true, Bool.or_eq_true, Bool.not_eq_true'] at hfits
    obtain ⟨⟨htext, hvfits⟩, hesfits⟩ := hfits
    have hk : k ∉ pre.map Prod.fst := by
      simp only [List.map_append, List.map_cons] at hnd
      exact fun hmem => (List.nodup_append.mp hnd).2.2 k hmem k List.mem_cons_self rfl
    have hv : d.get? (p ++ [.key k]) = some v := by
      rw [Node.get?_append, hget]
      simp [Node.get?, lookup_append_cons hk]
    -- the entry is walked at its own path, under its own key
    have hwalk := walk_at (p ++ [.key k]) v d c hv hvfits (.inl (by simp))
      (fun ht => ⟨p, .key k, _, rfl, hget, htext.resolve_left (by simp [ht]), by simp⟩)
    rw [innerKey_append_key] at hwalk
    have hget' : (d.set (p ++ [.key k]) (hashValue cb ignoredKeys format k v)).get? p =
        some (.map et ((pre ++ [(k, hashValue cb ignoredKeys format k v)]) ++ es)) := by
      rw [Node.get?_set_append hget]
      simp [Node.set, Node.modify, modifyEntry_append_cons hk]
    have hnd' : (((pre ++ [(k, hashValue cb ignoredKeys format k v)]) ++ es).map Prod.fst).Nodup := by
      simpa using hnd
    simp only [walkMapEntries, WalkState.primitive_mapKey, ok_bind,
      WalkState.exit_enter (l := .mapKey) (by simp), WalkState.enter_mapValue_at, hwalk,
      WalkState.exit_mapValue_at, walkMapEntries_at p et _ es _ _ hget' hnd' hesfits]
    simp [Node.set_set_append, hashEntries, hashedEntries]
termination_by structural es

/-- The loop over a slice's elements, the `i` elements of `pre` having been walked, walks the
rest in turn. -/
theorem walkSliceElems_at (p : Path) (et : ElemType) (pre vs : List (Node τ)) (d : Node τ)
    (c : List String) (i : ℕ) (hi : pre.length = i) (hget : d.get? p = some (.slice et (pre ++ vs)))
    (hkeys : keysOf p ≠ []) (hfits : Node.elemsFit et vs = true) :
    walkSliceElems cb ignoredKeys format p i vs (((WalkState.at p d c).enter .slice).slice p) =
      .ok (((WalkState.at p
        (d.set p (.slice et (pre ++ hashElems cb ignoredKeys format (innerKey p) vs)))
        (c ++ hashedElems ignoredKeys (innerKey p) vs)).enter .slice).slice p) := by
  match vs with
  | [] =>
    rw [List.append_nil] at hget
    simp only [walkSliceElems, hashElems, hashedElems, List.append_nil, Node.set_eq_self hget]
    rfl
  | v :: vs =>
    simp only [Node.elemsFit, Bool.and_eq_true, Bool.or_eq_true, Bool.not_eq_true'] at hfits
    obtain ⟨⟨htext, hvfits⟩, hvsfits⟩ := hfits
    subst hi
    have hv : d.get? (p ++ [.index pre.length]) = some v := by
      rw [Node.get?_append, hget]
      simp [Node.get?]
    -- the element is walked at its own path, under the slice's innermost key
    have hwalk := walk_at (p ++ [.index pre.length]) v d c hv hvfits (.inl (by simpa using hkeys))
      (fun ht => ⟨p, .index pre.length, _, rfl, hget, htext.resolve_left (by simp [ht]), by simp⟩)
    rw [innerKey_append_index] at hwalk
    have hget' : (d.set (p ++ [.index pre.length])
        (hashValue cb ignoredKeys format (innerKey p) v)).get? p =
        some (.slice et ((pre ++ [hashValue cb ignoredKeys format (innerKey p) v]) ++ vs)) := by
      rw [Node.get?_set_append hget]
      simp [Node.set, Node.modify, Collections.modify_length_append]
    simp only [walkSliceElems, WalkState.enter_sliceElem_at, hwalk, ok_bind,
      WalkState.exit_sliceElem_at,
      walkSliceElems_at p et _ vs _ _ (pre.length + 1) (by simp) hget' hkeys hvsfits]
    simp [Node.set_set_append, hashElems, hashedElems]
termination_by structural vs

end

end Run

end Vault.Audit
