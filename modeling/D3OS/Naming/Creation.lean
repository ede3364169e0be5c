import D3OS.Naming.Lookup

/-!
# New objects and lookup

`mkdir`, `touch` and `mkfifo` split a path and look up a parent path that they build themselves,
`lookup_named_object` walks the components. The two agree on a path exactly when it is tidy:
absolute, not the root, not with a single empty component before the name, and when the new entry is
not under a mount point.
-/

namespace D3OS.Naming

variable {c p : Path}

namespace Path

private theorem components_slash_cons (p : Path) : components ('/' :: p) = [] :: p.components := by
  rfl

private theorem components_ne_nil (p : Path) : p.components ≠ [] := List.splitOn_ne_nil '/' p

/-- No component has the separator. -/
def Separated (components : List Path) : Prop := ∀ c ∈ components, '/' ∉ c

private theorem separated_cons {cs : List Path} :
    Separated (c :: cs) ↔ '/' ∉ c ∧ Separated cs := List.forall_mem_cons

private theorem separated_concat {cs : List Path} : Separated
    (cs ++ [c]) ↔ Separated cs ∧ '/' ∉ c := by
  rw [Separated, List.forall_mem_append, List.forall_mem_singleton, Separated]

private theorem components_separated (p : Path) : Separated p.components := by
  induction p with
  | nil =>
    intro c hc
    cases List.mem_singleton.mp hc
    exact List.not_mem_nil
  | cons x p ih =>
    by_cases hx : x = '/'
    · rw [hx, components_slash_cons]
      exact separated_cons.mpr ⟨List.not_mem_nil, ih⟩
    · obtain ⟨c, cs, hcs⟩ := List.exists_cons_of_ne_nil (components_ne_nil p)
      have hcons : components (x :: p) = (x :: c) :: cs := by
        rw [components, List.splitOn, List.splitOnP_cons_eq_if_modifyHead,
          if_neg (fun h ↦ hx (beq_iff_eq.mp h))]
        show List.modifyHead (List.cons x) (components p) = _
        rw [hcs]
        rfl
      rw [hcs, separated_cons] at ih
      rw [hcons, separated_cons]
      refine ⟨fun hmem ↦ ?_, ih.2⟩
      rcases List.mem_cons.mp hmem with heq | hmem
      · exact hx heq.symm
      · exact ih.1 hmem

private theorem components_join {cs : List Path} (hne : cs ≠ []) (h : Separated cs) :
    (join cs).components = cs :=
  List.splitOn_intercalate '/' h hne

private theorem join_components (p : Path) : join p.components = p := List.intercalate_splitOn '/'

private theorem checkAbsolutePath_iff {path : Path} :
    checkAbsolutePath path = true ↔ ∃ p : Path, path = '/' :: p := by
  rw [checkAbsolutePath, beq_iff_eq]
  cases path with
  | nil => exact iff_of_false nofun (fun ⟨_, h⟩ ↦ absurd h nofun)
  | cons c p =>
    rw [List.head?_cons, Option.some.injEq]
    constructor
    · rintro rfl
      exact ⟨p, rfl⟩
    · rintro ⟨_, h⟩
      exact (List.cons.inj h).1

section

variable (p : Path)

private theorem components_eq : p.components = p.components.dropLast ++ [p.name] := by
  rw [name, List.getLastD_eq_getLast?, List.getLast?_eq_getLast_of_ne_nil p.components_ne_nil,
    Option.getD_some]
  exact (List.dropLast_concat_getLast p.components_ne_nil).symm

private theorem eq_nil_of_init_name (h : p.components.dropLast = [] ∧ p.name = []) : p = [] := by
  rw [← p.join_components, p.components_eq, h.1, h.2]
  rfl

private theorem name_slash_cons : name ('/' :: p) = p.name := by
  obtain ⟨c, cs, hcs⟩ := List.exists_cons_of_ne_nil p.components_ne_nil
  rw [name, name, components_slash_cons, hcs]
  rfl

private theorem init_name_separated : Separated p.components.dropLast ∧ '/' ∉ p.name := by
  rw [← separated_concat, ← p.components_eq]
  exact p.components_separated

private theorem dropLast_slash_cons :
    (components ('/' :: p)).dropLast = [] :: p.components.dropLast := by
  rw [components_slash_cons, List.dropLast_cons_of_ne_nil p.components_ne_nil]

private theorem dropLast_slash_cons_iff :
    (components ('/' :: p)).dropLast = [[], []] ↔ p.components.dropLast = [[]] := by
  rw [dropLast_slash_cons, List.cons.injEq]
  exact and_iff_right rfl

private theorem parent_slash_cons : parent ('/' :: p) = '/' :: join p.components.dropLast := by
  rw [parent, dropLast_slash_cons]
  cases p.components.dropLast with
  | nil => rfl
  | cons c cs => rfl

end

end Path

namespace Tree

open Naming.Path

variable {t t' : Tree} {dir dir' : Nat} {cur cur' : Path} {object : NamedObject}

/-- What a component names in a directory, with the table of mounts. -/
def resolve (t : Tree) (dir : Nat) (cur component : Path) : Option NamedObject :=
  ((t.dirs dir).lookup component).map fun found ↦
    ((t.mounts (buildPath cur component)).map NamedObject.dir).getD found

private theorem walk_cons (component : Path) (rest : List Path) :
    t.walk dir cur (component :: rest) =
      match t.resolve dir cur component with
      | none => .error .enoent
      | some found =>
        if rest = [] then .ok found
        else
          match found with
          | .dir dir => t.walk dir (buildPath cur component) rest
          | _ => .error .enoent := by
  rw [walk, resolve]
  cases (t.dirs dir).lookup component with
  | none => rfl
  | some found =>
    cases t.mounts (buildPath cur component) with
    | none | some mounted => rfl

/-- The directory that components lead to, and the path that was built on the way. -/
def follow (t : Tree) (dir : Nat) (cur : Path) : List Path → Option (Nat × Path)
  | [] => some (dir, cur)
  | component :: rest =>
    match t.resolve dir cur component with
    | some (.dir dir) => t.follow dir (buildPath cur component) rest
    | _ => none

private theorem follow_append (init rest : List Path) :
    t.follow dir cur (init ++ rest) =
      (t.follow dir cur init).bind fun d ↦ t.follow d.1 d.2 rest := by
  induction init generalizing dir cur with
  | nil => rfl
  | cons c init ih =>
    rw [List.cons_append, follow, follow]
    cases t.resolve dir cur c with
    | none => rfl
    | some found =>
      cases found with
      | dir id => exact ih
      | file id | pipe id => rfl

variable {init : List Path}

private theorem follow_concat :
    t.follow dir cur (init ++ [c]) = some (dir', cur') ↔
      ∃ e cur₁, t.follow dir cur init = some (e, cur₁) ∧ t.resolve e cur₁ c = some (.dir dir') ∧
        buildPath cur₁ c = cur' := by
  rw [follow_append, Option.bind_eq_some_iff]
  constructor
  · rintro ⟨⟨e, cur₁⟩, hfollow, hlast⟩
    rw [follow] at hlast
    split at hlast
    next hfound =>
      cases hlast
      exact ⟨e, cur₁, hfollow, hfound, rfl⟩
    · exact absurd hlast nofun
  · rintro ⟨e, cur₁, hfollow, hfound, rfl⟩
    exact ⟨(e, cur₁), hfollow, by rw [follow, hfound]; rfl⟩

/-- What a name behind components leads to. -/
def find (t : Tree) (init : List Path) (c : Path) : Option NamedObject :=
  (t.follow t.root slash init).bind fun d ↦ t.resolve d.1 d.2 c

private theorem find_eq_some : t.find init c = some object ↔
    ∃ e cur, t.follow t.root slash init = some (e, cur) ∧ t.resolve e cur c = some object := by
  rw [find, Option.bind_eq_some_iff, Prod.exists]

private theorem walk_concat : t.walk dir cur (init ++ [c]) =
    ((t.follow dir cur init).bind fun d ↦ t.resolve d.1 d.2 c).elim (.error .enoent) .ok := by
  induction init generalizing dir cur with
  | nil =>
    rw [List.nil_append, walk_cons, follow, Option.bind_some]
    cases t.resolve dir cur c with
    | none | some found => rfl
  | cons b init ih =>
    rw [List.cons_append, walk_cons, follow]
    cases t.resolve dir cur b with
    | none => rfl
    | some found =>
      dsimp only
      rw [if_neg (List.append_ne_nil_of_right_ne_nil init (List.cons_ne_nil _ _))]
      cases found with
      | dir id => exact ih
      | file id | pipe id => rfl

private theorem elim_eq_ok {o : Option NamedObject} :
    o.elim (.error Errno.enoent) Except.ok = .ok object ↔ o = some object := by
  cases o with
  | none | some found => simp

private theorem lookup_slash : t.lookup ['/'] = .ok (.dir t.root) := rfl

private theorem lookup_slash_cons (hp : p ≠ []) : t.lookup ('/' :: p) =
    (t.find p.components.dropLast p.name).elim (.error .enoent) .ok := by
  rw [lookup, if_pos (checkAbsolutePath_iff.mpr ⟨p, rfl⟩), if_neg, components_slash_cons,
    List.tail_cons, find, ← walk_concat, ← p.components_eq]
  exact fun h ↦ hp (List.cons.inj h).2

private theorem lookup_of_relative {path : Path} (h : checkAbsolutePath path ≠ true) :
    t.lookup path = .error .enoent := if_neg h

private theorem resolve_lt {component : Path} (h : t.resolve dir cur component = some object) :
    object.id < t.next := by
  rw [resolve, Option.map_eq_some_iff] at h
  obtain ⟨found, hfound, rfl⟩ := h
  cases hmount : t.mounts (buildPath cur component) with
  | none => exact t.entries_lt dir component found hfound
  | some mounted => exact t.mounts_lt _ mounted hmount

/-- A tree with a new object: an empty directory, a file or a pipe in a directory that had no entry
of that name. -/
structure Added (t t' : Tree) (dir : Nat) (name : Path) (object : NamedObject) : Prop where
  entries : ∀ e c, (t'.dirs e).lookup c =
    if e = dir ∧ c = name then some object else (t.dirs e).lookup c
  mounts : t'.mounts = t.mounts
  root : t'.root = t.root
  absent : (t.dirs dir).lookup name = none
  lt : dir < t.next
  id : object.id = t.next

namespace Added

variable {name : Path} (h : Added t t' dir name object)
include h

private theorem resolve_absent : t.resolve dir cur name = none := by
  rw [resolve, h.absent]
  rfl

variable {e : Nat} {c : Path}

private theorem resolve_other (hne : ¬ (e = dir ∧ c = name)) :
    t'.resolve e cur c = t.resolve e cur c := by
  rw [resolve, resolve, h.entries, h.mounts, if_neg hne]

private theorem resolve_name :
    t'.resolve dir cur name = some (((t.mounts (buildPath cur name)).map .dir).getD object) := by
  rw [resolve, h.entries, h.mounts, if_pos ⟨rfl, rfl⟩]
  rfl

private theorem resolve_mono {found : NamedObject} (hfound : t.resolve e cur c = some found) :
    t'.resolve e cur c = some found := by
  rw [h.resolve_other, hfound]
  rintro ⟨rfl, rfl⟩
  rw [h.resolve_absent] at hfound
  exact absurd hfound nofun

variable {components : List Path} {e' : Nat}

private theorem follow_mono (hfollow : t.follow e cur components = some (e', cur')) :
    t'.follow e cur components = some (e', cur') := by
  induction components generalizing e cur with
  | nil => exact hfollow
  | cons c rest ih =>
    rw [follow] at hfollow ⊢
    cases hfound : t.resolve e cur c with
    | none =>
      rw [hfound] at hfollow
      exact absurd hfollow nofun
    | some found =>
      rw [hfound] at hfollow
      rw [h.resolve_mono hfound]
      cases found with
      | dir id => exact ih hfollow
      | file id | pipe id => exact absurd hfollow nofun

end Added

/-- Nothing is mounted at a path that leads to a new entry of a directory. The path of the root
never counts, but for an entry without a name what is mounted there may not be the directory itself
and must be empty. -/
def Unmounted (t : Tree) (dir : Nat) (name : Path) : Prop :=
  ∀ init cur mounted, Separated init → t.follow t.root slash init = some (dir, cur) →
    t.mounts (buildPath cur name) = some mounted →
    (init = [] ∧ name = []) ∧ mounted ≠ dir ∧
      ∀ c, '/' ∉ c → (t.dirs mounted).lookup c = none

private theorem Unmounted.mounts_eq_none {name : Path} (h : t.Unmounted dir name)
    (hinit : Separated init)
    (hfollow : t.follow t.root slash init = some (dir, cur)) (hlong : ¬ (init = [] ∧ name = [])) :
    t.mounts (buildPath cur name) = none := by
  cases hmount : t.mounts (buildPath cur name) with
  | none => rfl
  | some mounted => exact absurd (h init cur mounted hinit hfollow hmount).1 hlong

/-- A directory other than that of the new entry, without entries. -/
def Barren (t : Tree) (dir e : Nat) : Prop :=
  e ≠ dir ∧ ∀ c, '/' ∉ c → (t.dirs e).lookup c = none

namespace Added

variable {name : Path} (h : Added t t' dir name object)
include h

private theorem resolve_barren {e : Nat} (hbarren : t.Barren dir e) (hc : '/' ∉ c) :
    t'.resolve e cur c = none := by
  rw [h.resolve_other (fun heq ↦ hbarren.1 heq.1), resolve, hbarren.2 c hc]
  rfl

private theorem follow_back (hunmounted : t.Unmounted dir name) (hinit : Separated init) {e : Nat}
    (hfollow : t'.follow t.root slash init = some (e, cur)) :
    t.Barren dir e ∨ t.follow t.root slash init = some (e, cur) := by
  induction init using List.reverseRecOn generalizing e cur with
  | nil => exact .inr hfollow
  | append_singleton init c ih =>
    obtain ⟨hinit, hc⟩ := separated_concat.mp hinit
    obtain ⟨e₁, cur₁, hbefore, hfound, rfl⟩ := follow_concat.mp hfollow
    rcases ih hinit hbefore with hbarren | hold
    · rw [h.resolve_barren hbarren hc] at hfound
      exact absurd hfound nofun
    · by_cases hit : e₁ = dir ∧ c = name
      · -- the new object, or what is mounted there
        obtain ⟨rfl, rfl⟩ := hit
        rw [h.resolve_name, Option.some.injEq] at hfound
        cases hmount : t.mounts (buildPath cur₁ c) with
        | none =>
          rw [hmount] at hfound
          have hid : e = t.next := (congrArg NamedObject.id hfound).symm.trans h.id
          rw [hid]
          refine .inl ⟨Nat.ne_of_gt h.lt, fun c _ ↦ ?_⟩
          rw [t.unused t.next (Nat.le_refl _)]
          rfl
        | some mounted =>
          rw [hmount] at hfound
          cases hfound
          exact .inl (hunmounted init cur₁ e hinit hold hmount).2
      · rw [h.resolve_other hit] at hfound
        exact .inr (follow_concat.mpr ⟨e₁, cur₁, hold, hfound, rfl⟩)

private theorem find_or (hunmounted : t.Unmounted dir name) (hinit : Separated init) (hc : '/' ∉ c)
    (hlong : ¬ (init = [] ∧ c = [])) :
    t'.find init c = some object ∨ t'.find init c = t.find init c := by
  rw [find, find, h.root]
  cases hold : t.follow t.root slash init with
  | some d =>
    rw [h.follow_mono hold]
    by_cases hit : d.1 = dir ∧ c = name
    · obtain ⟨rfl, rfl⟩ := hit
      left
      show t'.resolve d.1 d.2 c = _
      rw [h.resolve_name, hunmounted.mounts_eq_none hinit hold hlong]
      rfl
    · exact .inr (h.resolve_other hit)
  | none =>
    right
    cases hnew : t'.follow t.root slash init with
    | none => rfl
    | some d =>
      rcases h.follow_back hunmounted hinit hnew with hbarren | hold'
      · exact h.resolve_barren hbarren hc
      · exact absurd (hold.symm.trans hold') nofun

private theorem lookup_or (hunmounted : t.Unmounted dir name) (q : Path) :
    t'.lookup q = .ok object ∨ t'.lookup q = t.lookup q := by
  by_cases habsolute : checkAbsolutePath q = true
  · obtain ⟨p, rfl⟩ := checkAbsolutePath_iff.mp habsolute
    by_cases hp : p = []
    · rw [hp, lookup_slash, lookup_slash, h.root]
      exact .inr rfl
    · obtain ⟨hinit, hname⟩ := p.init_name_separated
      rw [lookup_slash_cons hp, lookup_slash_cons hp]
      rcases h.find_or hunmounted hinit hname (fun hnil ↦ hp (p.eq_nil_of_init_name hnil))
        with heq | heq
      · exact .inl (elim_eq_ok.mpr heq)
      · exact .inr (by rw [heq])
  · rw [lookup_of_relative habsolute, lookup_of_relative habsolute]
    exact .inr rfl

private theorem resolve_eq_object_iff {e : Nat} :
    t'.resolve e cur name = some object ↔ e = dir ∧ t.mounts (buildPath cur name) = none := by
  by_cases heq : e = dir
  · rw [heq, h.resolve_name, Option.some.injEq]
    cases hmount : t.mounts (buildPath cur name) with
    | none => exact iff_of_true rfl ⟨rfl, rfl⟩
    | some mounted =>
      refine iff_of_false (fun hobject ↦ ?_) (fun hc ↦ absurd hc.2 nofun)
      have hid : mounted = t.next := (congrArg NamedObject.id hobject).trans h.id
      exact Nat.ne_of_lt (t.mounts_lt _ _ hmount) hid
  · refine iff_of_false (fun hobject ↦ ?_) (fun hc ↦ heq hc.1)
    rw [h.resolve_other (fun hc ↦ heq hc.1)] at hobject
    exact Nat.ne_of_lt (resolve_lt hobject) h.id

private theorem lookup_name_iff (hunmounted : t.Unmounted dir name) (hname : p.name = name) :
    t'.lookup ('/' :: p) = .ok object ↔
      p ≠ [] ∧ ∃ cur, t.follow t.root slash p.components.dropLast = some (dir, cur) := by
  by_cases hp : p = []
  · -- the root is an object of the tree before
    refine iff_of_false (fun hlookup ↦ ?_) (fun hc ↦ hc.1 hp)
    rw [hp, lookup_slash, h.root] at hlookup
    cases hlookup
    exact absurd h.id (Nat.ne_of_lt t.root_lt)
  · obtain ⟨hinit, -⟩ := p.init_name_separated
    rw [lookup_slash_cons hp, elim_eq_ok, find_eq_some, and_iff_right hp, h.root]
    constructor
    · rintro ⟨e, cur, hfollow, hfound⟩
      rw [hname] at hfound
      obtain ⟨rfl, -⟩ := h.resolve_eq_object_iff.mp hfound
      exact ⟨cur, (h.follow_back hunmounted hinit hfollow).resolve_left fun hb ↦ hb.1 rfl⟩
    · rintro ⟨cur, hfollow⟩
      have hlong : ¬ (p.components.dropLast = [] ∧ name = []) :=
        fun hnil ↦ hp (p.eq_nil_of_init_name (hname ▸ hnil))
      refine ⟨dir, cur, h.follow_mono hfollow, ?_⟩
      rw [hname, h.resolve_eq_object_iff]
      exact ⟨rfl, hunmounted.mounts_eq_none hinit hfollow hlong⟩

private theorem find_before (hframe : ∀ q, t'.lookup q = .ok object ∨ t'.lookup q = t.lookup q)
    (hseparated : Separated (init ++ [c])) (hlong : init ++ [c] ≠ [[]]) {found : NamedObject}
    (hfound : t'.find init c = some found) (hold : found.id < t.next) :
    t.find init c = some found := by
  have hcomponents := components_join
    (List.append_ne_nil_of_right_ne_nil _ (List.cons_ne_nil _ _)) hseparated
  have hp : join (init ++ [c]) ≠ [] := by
    intro hp
    rw [hp] at hcomponents
    exact hlong hcomponents.symm
  have hlookup (t : Tree) :
      t.lookup ('/' :: join (init ++ [c])) = (t.find init c).elim (.error .enoent) .ok := by
    rw [lookup_slash_cons hp, Path.name, hcomponents, List.dropLast_concat, List.getLastD_concat]
  rcases hframe ('/' :: join (init ++ [c])) with heq | heq
  · rw [hlookup, elim_eq_ok, hfound] at heq
    cases heq
    exact absurd h.id (Nat.ne_of_lt hold)
  · rw [hlookup, hlookup, hfound] at heq
    exact elim_eq_ok.mp heq.symm

private theorem unmounted (hname : '/' ∉ name)
    (hframe : ∀ q, t'.lookup q = .ok object ∨ t'.lookup q = t.lookup q) :
    t.Unmounted dir name := by
  intro init cur mounted hinit hfollow hmount
  have hmounted : mounted < t.next := t.mounts_lt _ _ hmount
  have hresolve : t'.resolve dir cur name = some (.dir mounted) := by
    rw [h.resolve_name, hmount]
    rfl
  have hshort : init = [] ∧ name = [] := by
    apply Classical.byContradiction
    intro hlong
    have hroot : init ++ [name] ≠ [[]] := by
      intro heq
      obtain ⟨hempty, hnameless⟩ := List.append_inj' (heq.trans (List.nil_append _).symm) rfl
      exact hlong ⟨hempty, List.singleton_inj.mp hnameless⟩
    have hfound : t'.find init name = some (.dir mounted) :=
      find_eq_some.mpr ⟨dir, cur, h.root ▸ h.follow_mono hfollow, hresolve⟩
    obtain ⟨e, cur', hfollow', habsent⟩ := find_eq_some.mp
      (h.find_before hframe (separated_concat.mpr ⟨hinit, hname⟩) hroot hfound hmounted)
    cases hfollow.symm.trans hfollow'
    exact absurd (h.resolve_absent.symm.trans habsent) nofun
  obtain ⟨rfl, rfl⟩ := hshort
  cases hfollow
  -- a path with an empty component first would now lead into what is mounted at the root
  have hnothing {c : Path} {found : NamedObject} (hc : '/' ∉ c) (hold : found.id < t.next)
      (hfound : t'.resolve mounted slash c = some found) : False := by
    have hseparated : Separated ([[]] ++ [c]) :=
      separated_cons.mpr ⟨hname, fun _ hmem ↦ List.mem_singleton.mp hmem ▸ hc⟩
    have hfollow : t'.follow t'.root slash [[]] = some (mounted, slash) := by
      rw [h.root, follow, hresolve]
      rfl
    obtain ⟨e, cur, hbefore, -⟩ := find_eq_some.mp (h.find_before hframe hseparated
      (fun heq ↦ List.cons_ne_nil _ _ (List.cons.inj heq).2)
      (find_eq_some.mpr ⟨mounted, slash, hfollow, hfound⟩) hold)
    rw [follow, h.resolve_absent] at hbefore
    exact absurd hbefore nofun
  refine ⟨⟨rfl, rfl⟩, fun heq ↦ ?_, fun c hc ↦ ?_⟩
  · have hold : (NamedObject.dir mounted).id < t.next := hmounted
    rw [← heq] at hresolve
    exact hnothing hname hold hresolve
  · cases hlookup : (t.dirs mounted).lookup c with
    | none => rfl
    | some found =>
      have hfound : t.resolve mounted slash c =
          some (((t.mounts (buildPath slash c)).map .dir).getD found) := by
        rw [resolve, hlookup]
        rfl
      exact (hnothing hc (resolve_lt hfound) (h.resolve_mono hfound)).elim

end Added

/-- The directory of the parent path can take the name. -/
def Creates (t : Tree) (path : Path) (dir : Nat) : Prop :=
  t.lookupDir path.parent = .ok dir ∧
    ∃ files, t.dirs dir = .tmpfs files ∧ ∀ e ∈ files, e.1 ≠ path.name

/-- What a call for a new object is to do: the path leads to the object and every other path where
it led, and after an error every path does. -/
def Agrees (kind : ObjectKind) (t : Tree) (path : Path) : Except Errno Nat × Tree → Prop
  | (.ok _, t') =>
    t'.lookup path = .ok (kind.object t.next) ∧
      ∀ q, t'.lookup q = .ok (kind.object t.next) ∨ t'.lookup q = t.lookup q
  | (.error _, t') => ∀ q, t'.lookup q = t.lookup q

/-- The path is absolute and not that of the root. When its only component before the name is empty,
that component leads from the root to the root. -/
def Tidy (t : Tree) (path : Path) : Prop :=
  checkAbsolutePath path = true ∧ path ≠ slash ∧
    (path.components.dropLast = [[], []] →
      (t.follow t.root slash [[]]).map (·.1) = some t.root)

private theorem added_add {new : Directory} {name : Path}
    (hnew : (t.dirs dir).create name object = .ok new) (hid : object.id = t.next)
    (hdir : dir < t.next) : Added t (t.add hnew hid hdir) dir name object where
  entries e c := by
    show (Function.update t.dirs dir new e).lookup c = _
    rw [Function.update_apply]
    by_cases he : e = dir
    · rw [if_pos he, Directory.lookup_create hnew]
      by_cases hc : c = name
      · rw [if_pos hc, if_pos ⟨he, hc⟩]
      · rw [if_neg hc, if_neg (fun h ↦ hc h.2), he]
    · rw [if_neg he, if_neg (fun h ↦ he h.1)]
  mounts := rfl
  root := rfl
  absent := Directory.lookup_of_create hnew
  lt := hdir
  id := hid

private theorem createAt_cases (t : Tree) (path : Path) (report : Errno → Errno)
    (kind : ObjectKind) :
    (∃ dir t', t.Creates path dir ∧ t.createAt report kind path = (.ok 0, t') ∧
      Added t t' dir path.name (kind.object t.next)) ∨
    ((∀ dir, ¬ t.Creates path dir) ∧ ∃ e, t.createAt report kind path = (.error e, t)) := by
  rw [createAt]
  split
  next e hdir =>
    refine .inr ⟨fun dir hcreates ↦ ?_, report e, rfl⟩
    cases hdir.symm.trans hcreates.1
  next dir hdir =>
    split
    next e hnew =>
      refine .inr ⟨?_, report e, rfl⟩
      rintro dir' ⟨hdir', files, hfiles, hfree⟩
      cases hdir.symm.trans hdir'
      rw [hfiles, Directory.create, if_neg] at hnew
      · cases hnew
      · intro hany
        obtain ⟨e, he, hname⟩ := List.any_eq_true.mp hany
        exact hfree e he (beq_iff_eq.mp hname)
    next new hnew =>
      refine .inl ⟨dir, _, ⟨hdir, ?_⟩, rfl, added_add _ _ _⟩
      cases hfiles : t.dirs dir with
      | other lookup =>
        rw [hfiles] at hnew
        cases hnew
      | tmpfs files =>
        rw [hfiles, Directory.create] at hnew
        split at hnew
        · cases hnew
        next hany =>
          refine ⟨files, rfl, fun e he hname ↦ hany ?_⟩
          exact List.any_eq_true.mpr ⟨e, he, beq_iff_eq.mpr hname⟩

private theorem follow_of_lookup_parent (hdir : t.lookup (parent ('/' :: p)) = .ok (.dir dir))
    (hempty : p.components.dropLast = [[]] → (t.follow t.root slash [[]]).map (·.1) = some t.root) :
    ∃ cur, t.follow t.root slash p.components.dropLast = some (dir, cur) := by
  rw [parent_slash_cons] at hdir
  by_cases hinit : p.components.dropLast = []
  · rw [hinit] at hdir ⊢
    cases lookup_slash.symm.trans hdir
    exact ⟨slash, rfl⟩
  · have hcomponents := components_join hinit p.init_name_separated.1
    by_cases hjoin : join p.components.dropLast = []
    · rw [hjoin] at hcomponents hdir
      have hsingle : p.components.dropLast = [[]] := hcomponents.symm
      obtain ⟨⟨dir', cur⟩, hfollow, heq⟩ := Option.map_eq_some_iff.mp (hempty hsingle)
      cases lookup_slash.symm.trans hdir
      cases heq
      rw [hsingle]
      exact ⟨cur, hfollow⟩
    · rw [lookup_slash_cons hjoin, elim_eq_ok, find_eq_some] at hdir
      obtain ⟨e, cur, hfollow, hfound⟩ := hdir
      have hlast := follow_concat.mpr ⟨e, cur, hfollow, hfound, rfl⟩
      rw [← components_eq, hcomponents] at hlast
      exact ⟨_, hlast⟩

private theorem createAt_agrees_iff (t : Tree) (path : Path) (report : Errno → Errno)
    (kind : ObjectKind) :
    Agrees kind t path (t.createAt report kind path) ↔
      ∀ dir, t.Creates path dir → t.Tidy path ∧ t.Unmounted dir path.name := by
  rcases t.createAt_cases path report kind with
    ⟨dir, t', hcreates, hresult, h⟩ | ⟨hcreates, e, hresult⟩
  · have hparent := lookupDir_eq_ok.mp hcreates.1
    rw [hresult]
    constructor
    · rintro ⟨hlookup, hframe⟩ dir' hcreates'
      cases hcreates.1.symm.trans hcreates'.1
      have hunmounted := h.unmounted path.init_name_separated.2 hframe
      have habsolute : checkAbsolutePath path = true := by
        apply Classical.byContradiction
        intro hrelative
        exact absurd ((lookup_of_relative hrelative).symm.trans hlookup) nofun
      obtain ⟨p, rfl⟩ := checkAbsolutePath_iff.mp habsolute
      obtain ⟨hp, cur, hfollow⟩ :=
        (h.lookup_name_iff hunmounted (name_slash_cons p).symm).mp hlookup
      refine ⟨⟨habsolute, fun heq ↦ hp (List.cons.inj heq).2, fun hcs ↦ ?_⟩, hunmounted⟩
      have hsingle : p.components.dropLast = [[]] := (dropLast_slash_cons_iff p).mp hcs
      -- the parent path is that of the root
      rw [parent_slash_cons, hsingle] at hparent
      cases hparent
      rw [← hsingle, hfollow]
      rfl
    · intro hcondition
      obtain ⟨⟨habsolute, hroot, hempty⟩, hunmounted⟩ := hcondition dir hcreates
      obtain ⟨p, rfl⟩ := checkAbsolutePath_iff.mp habsolute
      have hp : p ≠ [] := by
        rintro rfl
        exact hroot rfl
      have hfollow := follow_of_lookup_parent hparent
        (fun hsingle ↦ hempty ((dropLast_slash_cons_iff p).mpr hsingle))
      exact ⟨(h.lookup_name_iff hunmounted (name_slash_cons p).symm).mpr ⟨hp, hfollow⟩,
        h.lookup_or hunmounted⟩
  · rw [hresult]
    exact iff_of_true (fun _ ↦ rfl) (fun dir hdir ↦ absurd hdir (hcreates dir))

/-- `mkdir`, `touch` and `mkfifo` agree with `lookup_named_object` exactly when the parent path has
no directory that can take the name, or the path is tidy and nothing is mounted at the new entry. -/
theorem creation_agrees_iff (t : Tree) (path : Path) :
    (Agrees .dir t path (t.mkdir path) ↔
      ∀ dir, t.Creates path dir → t.Tidy path ∧ t.Unmounted dir path.name) ∧
    (Agrees .file t path (t.touch path) ↔
      ∀ dir, t.Creates path dir → t.Tidy path ∧ t.Unmounted dir path.name) ∧
    (Agrees .pipe t path (t.mkfifo path) ↔
      ∀ dir, t.Creates path dir → t.Tidy path ∧ t.Unmounted dir path.name) :=
  ⟨createAt_agrees_iff t path _ _, createAt_agrees_iff t path _ _, createAt_agrees_iff t path _ _⟩

/-- The tree after `init` with an empty disk: `proc` in the root, with `procfs` mounted there. -/
def booted : Tree where
  dirs dir :=
    if dir = 0 then .tmpfs [(['p', 'r', 'o', 'c'], .dir 1)]
    else if dir = 2 then .other fun name ↦ if name = ['p', 's'] then some (.file 3) else none
    else .tmpfs []
  next := 4
  root := 0
  mounts path := if path = ['/', 'p', 'r', 'o', 'c'] then some 2 else none
  root_lt := by decide
  mounts_lt path dir h := by
    split at h
    · cases h
      decide
    · exact absurd h nofun
  entries_lt dir name object h := by
    split at h
    · obtain ⟨e, he, rfl⟩ := Option.map_eq_some_iff.mp h
      cases List.mem_singleton.mp (List.mem_of_find?_eq_some he)
      decide
    · split at h
      · rw [Directory.lookup] at h
        split at h
        · cases h
          decide
        · exact absurd h nofun
      · exact absurd h nofun
  unused dir h := by
    rw [if_neg (by omega), if_neg (by omega)]

/-- `mkdir` of a relative path with one separator makes its directory in the root, where the path
does not lead. -/
theorem mkdir_relative_in_root :
    (booted.mkdir ['a', '/', 'b']).1 = .ok 0 ∧
      (booted.mkdir ['a', '/', 'b']).2.lookup ['a', '/', 'b'] = .error .enoent ∧
      (booted.mkdir ['a', '/', 'b']).2.lookup ['/', 'b'] = .ok (.dir 4) ∧
      ¬ Agrees .dir booted ['a', '/', 'b'] (booted.mkdir ['a', '/', 'b']) := by
  have hlookup : (booted.mkdir ['a', '/', 'b']).2.lookup ['a', '/', 'b'] = .error .enoent := rfl
  refine ⟨rfl, hlookup, rfl, fun h ↦ ?_⟩
  exact absurd (hlookup.symm.trans h.1) nofun

end Tree

end D3OS.Naming
