import D3OS.Network.Sockets

/-!
# Owners of sockets

When `poll_sockets` never removes sockets while an `open_udp` or `open_tcp` is between its two
sections, and a process does not close a socket twice at once, every entry of `SOCKET_PROCESS` names
a live socket of its process in every state of every run.
-/

namespace D3OS.Network

open Lib

namespace Stack

/-- Each handle with a process names a live socket of the kind that was opened for it, opened by
that process; a socket stays while the call that opened it has not returned; and only a
`close_socket` of a handle that the caller did not own has panicked. -/
structure Sound (n : Stack) : Prop where
  live : ∀ handle e, (handle, e) ∈ n.socketProcess →
    ∃ s, n.sockets.get handle = some s ∧ s.kind = e.kind ∧ s.opener = e.process
  kept : ∀ call type process handle, n.pc call = .opened type process handle →
    ∃ s, n.sockets.get handle = some s ∧ s.kind = .user type ∧ s.call = some call
  calm : ∀ call, n.panicked = some call →
    ∃ process handle, n.pc call = .closeLocked process handle false

/-- While `poll_sockets` removes sockets, no `open_udp` or `open_tcp` is between its two sections.
While an entry is removed from `SOCKET_PROCESS`, no other `close_socket` by its owner is under way
for it, and the process that set up the network does not exit. -/
def Calm (n : Stack) : Event → Prop
  | .step call =>
    match n.pc call with
    | .pollLocked _ => n.mapLock = none → ∀ c < n.calls, (n.pc c).unrecorded = false
    | .closeChecked process handle =>
      n.mapLock = none → ∀ c < n.calls, c ≠ call → (n.pc c).closes ≠ some (process, handle)
    | .exitLocked process =>
      n.socketsLock = none →
        process ≠ n.kernel ∧ ∀ c < n.calls, (n.pc c).closes.map (·.1) ≠ some process
    | _ => True
  | _ => True

instance (n : Stack) (event : Event) : Decidable (n.Calm event) := by
  cases event <;> dsimp only [Calm]
  case step call => split <;> infer_instance
  all_goals infer_instance

end Stack

/-- A live socket of a kind that a process opened. -/
def Names (sockets : Slab Socket) (handle : Nat) (kind : Kind) (opener : Nat) : Prop :=
  ∃ s, sockets.get handle = some s ∧ s.kind = kind ∧ s.opener = opener

/-- `SOCKET_PROCESS` says that a process owns a handle. -/
def Owns (map : List (Nat × Entry)) (process handle : Nat) : Prop :=
  ∃ e, (handle, e) ∈ map ∧ e.process = process

/-- A socket stays, up to the state of TCP. -/
def Keeps (sockets sockets' : Slab Socket) (handle : Nat) : Prop :=
  ∀ s, sockets.get handle = some s →
    ∃ s', sockets'.get handle = some s' ∧ s'.kind = s.kind ∧ s'.opener = s.opener ∧ s'.call = s.call

variable {kind : Kind} {opener : Nat}

section

variable {sockets sockets' : Slab Socket} {handle : Nat}

private theorem Keeps.of_eq (h : sockets'.get handle = sockets.get handle) :
    Keeps sockets sockets' handle :=
  fun s hs ↦ ⟨s, h.trans hs, rfl, rfl, rfl⟩

private theorem Names.keep (h : Names sockets handle kind opener)
    (hkeeps : Keeps sockets sockets' handle) :
    Names sockets' handle kind opener := by
  obtain ⟨s, hs, hkind, hopener⟩ := h
  obtain ⟨s', hs', hkind', hopener', -⟩ := hkeeps s hs
  exact ⟨s', hs', hkind'.trans hkind, hopener'.trans hopener⟩

private theorem Names.get_ne_none (h : Names sockets handle kind opener) :
    sockets.get handle ≠ none := by
  obtain ⟨s, hs, -⟩ := h
  rw [hs]
  nofun

private theorem keeps_add (s : Socket) (hlive : sockets.get handle ≠ none) :
    Keeps sockets (sockets.add s) handle := by
  apply Keeps.of_eq
  rw [Slab.get_add, if_neg]
  rintro rfl
  exact hlive Slab.get_nextFree

private theorem keeps_foldl_remove {handles : List Nat} (h : handle ∉ handles) :
    Keeps sockets (handles.foldl Slab.remove sockets) handle :=
  Keeps.of_eq (by rw [Slab.get_foldl_remove, if_neg h])

private theorem keeps_modify (other : Nat) (closed : Bool) :
    Keeps sockets (sockets.modify other fun s ↦ { s with closed := closed }) handle := by
  intro s hs
  rw [Slab.get_modify]
  split
  next heq =>
    rw [← heq, hs]
    exact ⟨{ s with closed := closed }, rfl, rfl, rfl, rfl⟩
  · exact ⟨s, hs, rfl, rfl, rfl⟩

end

/-- The entries of `SOCKET_PROCESS` have different handles and name live sockets, and the sockets of
the kernel are there. -/
structure Recorded (card : Bool) (kernel : Nat) (sockets : Slab Socket)
    (map : List (Nat × Entry)) : Prop where
  keyed : Keyed map
  live : ∀ handle e, (handle, e) ∈ map → Names sockets handle e.kind e.process
  system : card = true →
    Names sockets dnsHandle .dns kernel ∧ Names sockets dhcpHandle .dhcp kernel

variable {handle : Nat} {e : Entry}

namespace Recorded

variable {card : Bool} {kernel : Nat} {sockets sockets' : Slab Socket}
  {map map' : List (Nat × Entry)}

variable (h : Recorded card kernel sockets map)
include h

private theorem keep (hkeeps : ∀ handle e, (handle, e) ∈ map → Keeps sockets sockets' handle)
    (hsystem : card = true → Keeps sockets sockets' dnsHandle ∧ Keeps sockets sockets' dhcpHandle) :
    Recorded card kernel sockets' map where
  keyed := h.keyed
  live handle e he := (h.live handle e he).keep (hkeeps handle e he)
  system hcard :=
    ⟨(h.system hcard).1.keep (hsystem hcard).1, (h.system hcard).2.keep (hsystem hcard).2⟩

private theorem concat (hnew : ∀ e', (handle, e') ∉ map)
    (hnames : Names sockets handle e.kind e.process) :
    Recorded card kernel sockets (map ++ [(handle, e)]) where
  keyed := h.keyed.concat hnew e
  live handle' e' he' := by
    rcases List.mem_append.mp he' with he' | he'
    · exact h.live handle' e' he'
    · cases List.mem_singleton.mp he'
      exact hnames
  system := h.system

private theorem sublist (hsub : map'.Sublist map) :
    Recorded card kernel sockets map' where
  keyed := h.keyed.sublist (hsub.map _)
  live handle e he := h.live handle e (hsub.subset he)
  system := h.system

private theorem entry_unique {e' : Entry} (he : (handle, e) ∈ map) (he' : (handle, e') ∈ map) :
    e = e' :=
  Option.some.inj ((h.keyed.find?_eq_some.mpr he).symm.trans (h.keyed.find?_eq_some.mpr he'))

end Recorded

/-- What the place of a call says about the sockets, the entries and the lock of `SOCKETS`. -/
def Pc.Fits (card : Bool) (sockets : Slab Socket) (map : List (Nat × Entry))
    (lock : Option Nat) (call : Nat) : Pc → Prop
  | .opened type process handle =>
    (∃ s, sockets.get handle = some s ∧ s.kind = .user type ∧ s.opener = process ∧
      s.call = some call) ∧ ∀ e, (handle, e) ∉ map
  | .closeStart process handle owned => owned = true → Owns map process handle
  | .closeLocked process handle owned =>
    (owned = true → Owns map process handle) ∧ lock = some call
  | .closeChecked process handle => Owns map process handle ∧ lock = some call
  | .pollStart _ => card = true
  | .pollLocked _ => card = true ∧ lock = some call
  | _ => True

namespace Pc.Fits

variable {card : Bool} {sockets sockets' : Slab Socket} {map map' : List (Nat × Entry)}
  {lock lock' : Option Nat} {call : Nat} {pc : Pc}

private theorem lock_eq (h : pc.Fits card sockets map lock call) (hholds : pc.HoldsSockets) :
    lock = some call := by
  cases pc
  case closeLocked => exact h.2
  case closeChecked => exact h.2
  case pollLocked => exact h.2
  all_goals exact hholds.elim

private theorem mono (h : pc.Fits card sockets map lock call)
    (hopened : ∀ type process handle, pc = .opened type process handle →
      Keeps sockets sockets' handle ∧ ∀ e, (handle, e) ∈ map' → (handle, e) ∈ map)
    (hcloses : ∀ process handle, pc.closes = some (process, handle) →
      Owns map process handle → Owns map' process handle)
    (hlock : pc.HoldsSockets → lock' = lock) : pc.Fits card sockets' map' lock' call := by
  cases pc with
  | opened type process handle =>
    obtain ⟨⟨s, hs, hkind, hopener, hcall⟩, hunlisted⟩ := h
    obtain ⟨hkeeps, hmap⟩ := hopened type process handle rfl
    obtain ⟨s', hs', hkind', hopener', hcall'⟩ := hkeeps s hs
    exact ⟨⟨s', hs', hkind'.trans hkind, hopener'.trans hopener, hcall'.trans hcall⟩,
      fun e he ↦ hunlisted e (hmap e he)⟩
  | closeStart process handle owned =>
    rintro rfl
    exact hcloses process handle rfl (h rfl)
  | closeLocked process handle owned =>
    refine ⟨?_, (hlock trivial).trans h.2⟩
    rintro rfl
    exact hcloses process handle rfl (h.1 rfl)
  | closeChecked process handle =>
    exact ⟨hcloses process handle rfl h.1, (hlock trivial).trans h.2⟩
  | pollStart configured => exact h
  | pollLocked configured => exact ⟨h.1, (hlock trivial).trans h.2⟩
  | _ => trivial

end Pc.Fits

namespace Stack

/-- What the steps keep when they are calm. -/
structure Coherent (n : Stack) : Prop where
  recorded : Recorded n.card n.kernel n.sockets n.socketProcess
  fits : ∀ call, (n.pc call).Fits n.card n.sockets n.socketProcess n.socketsLock call
  begun : ∀ call, n.calls ≤ call → n.pc call = .idle
  calm : ∀ call, n.panicked = some call →
    ∃ process handle, n.pc call = .closeLocked process handle false

variable {process : Nat}

namespace Coherent

variable {n n' : Stack} {call : Nat} {pc : Pc} {handle : Nat}

private theorem entry_eq (h : n.Coherent) : n.entry handle = some e ↔
    (handle, e) ∈ n.socketProcess :=
  h.recorded.keyed.find?_eq_some

private theorem entry_none : n.entry handle = none ↔ ∀ e, (handle, e) ∉ n.socketProcess :=
  find?_eq_none_iff

section

variable (h : n.Coherent)
include h

private theorem move (hquiet : n'.panicked = none) {old : Pc} (hold : n.pc call = old)
    (hne : old ≠ .idle) (hpc : n'.pc = Function.update n.pc call pc) (hcalls : n'.calls = n.calls)
    (hrecorded : Recorded n'.card n'.kernel n'.sockets n'.socketProcess)
    (hnew : pc.Fits n'.card n'.sockets n'.socketProcess n'.socketsLock call)
    (hothers : ∀ c, c ≠ call →
      (n.pc c).Fits n'.card n'.sockets n'.socketProcess n'.socketsLock c) : n'.Coherent where
  recorded := hrecorded
  fits c := by
    rw [hpc, Function.update_apply]
    split
    next heq => exact heq ▸ hnew
    next hne => exact hothers c hne
  begun c hc := by
    rw [hcalls] at hc
    have hidle := h.begun c hc
    rw [hpc, Function.update_of_ne, hidle]
    rintro rfl
    exact hne (hold.symm.trans hidle)
  calm c hc := by cases hquiet.symm.trans hc

private theorem lt_calls {c : Nat} (hc : n.pc c ≠ .idle) : c < n.calls :=
  Nat.lt_of_not_le fun hle ↦ hc (h.begun c hle)

private theorem not_holds (hlock : n.socketsLock = none) (c : Nat) :
    ¬ (n.pc c).HoldsSockets := by
  intro hholds
  have heq := (h.fits c).lock_eq hholds
  rw [hlock] at heq
  cases heq

private theorem not_holds_other (hlock : n.socketsLock = some call) {c : Nat}
    (hne : c ≠ call) : ¬ (n.pc c).HoldsSockets := by
  intro hholds
  have heq := (h.fits c).lock_eq hholds
  rw [hlock] at heq
  exact hne (Option.some.inj heq).symm

private theorem fits_of_eq (hc : n.pc call = pc) :
    pc.Fits n.card n.sockets n.socketProcess n.socketsLock call :=
  hc ▸ h.fits call

end

variable {type : SocketType}

private theorem opened (h : n.Coherent) (hc : n.pc call = .opened type process handle) :
    (∃ s, n.sockets.get handle = some s ∧ s.kind = .user type ∧ s.opener = process ∧
      s.call = some call) ∧ ∀ e, (handle, e) ∉ n.socketProcess :=
  h.fits_of_eq hc

private theorem hasKind_of_names (h : Names n.sockets handle kind opener) :
    n.hasKind handle kind = true := by
  obtain ⟨s, hs, hkind, -⟩ := h
  rw [hasKind, hs, Option.any_some, beq_iff_eq]
  exact hkind

private theorem not_collected
    (hkeep : (∃ e, (handle, e) ∈ n.socketProcess) ∨ handle = dnsHandle ∨ handle = dhcpHandle) :
    handle ∉ n.sockets.handles n.collects := by
  intro hmem
  obtain ⟨s, -, hcollects⟩ := Slab.mem_handles.mp hmem
  rw [collects, Bool.and_eq_true, Bool.and_eq_true, Bool.and_eq_true, bne_iff_ne, bne_iff_ne,
    Option.isNone_iff_eq_none] at hcollects
  obtain ⟨⟨⟨hdhcp, hdns⟩, -⟩, hentry⟩ := hcollects
  rcases hkeep with ⟨e, he⟩ | heq | heq
  · exact entry_none.mp hentry e he
  · exact hdns heq
  · exact hdhcp heq

section

variable (h : n.Coherent) (hquiet : n.panicked = none)
include h hquiet

private theorem lock {old : Pc} (hold : n.pc call = old) (hne : old ≠ .idle)
    (hfree : ¬ n.socketsLock.isSome)
    (hnew : pc.Fits n.card n.sockets n.socketProcess (some call) call) :
    Coherent { n.goto call pc with socketsLock := some call } := by
  refine h.move hquiet hold hne rfl rfl h.recorded hnew fun c _ ↦ ?_
  exact (h.fits c).mono (fun _ _ _ _ ↦ ⟨Keeps.of_eq rfl, fun _ ↦ id⟩) (fun _ _ _ ↦ id)
    fun hholds ↦ absurd hholds (h.not_holds (Option.not_isSome_iff_eq_none.mp hfree) c)

variable {process : Nat}

private theorem openAdd (hc : n.pc call = .openStart type process) :
    (n.openAdd call type process).Coherent := by
  rw [Stack.openAdd]
  split
  · exact h
  refine h.move hquiet hc nofun rfl rfl ?_ ?_ ?_
  · apply h.recorded.keep
    · exact fun handle e he ↦ keeps_add _ (h.recorded.live handle e he).get_ne_none
    · intro hcard
      obtain ⟨hdns, hdhcp⟩ := h.recorded.system hcard
      exact ⟨keeps_add _ hdns.get_ne_none, keeps_add _ hdhcp.get_ne_none⟩
  · refine ⟨⟨_, Slab.get_add.trans (if_pos rfl), rfl, rfl, rfl⟩, fun e he ↦ ?_⟩
    exact (h.recorded.live _ e he).get_ne_none Slab.get_nextFree
  · intro c _
    apply (h.fits c).mono
    · intro type' process' handle' hopened
      obtain ⟨⟨s, hs, -⟩, -⟩ := h.opened hopened
      exact ⟨keeps_add _ (by rw [hs]; nofun), fun _ ↦ id⟩
    · exact fun _ _ _ ↦ id
    · exact fun _ ↦ rfl

variable {handle : Nat}

private theorem openInsert (hc : n.pc call = .opened type process handle) :
    (n.openInsert call type process handle).Coherent := by
  obtain ⟨⟨s, hs, hkind, hopener, hcall⟩, hunlisted⟩ := h.opened hc
  rw [Stack.openInsert]
  split
  · exact h
  rw [entry_none.mpr hunlisted]
  refine h.move hquiet hc nofun rfl rfl ?_ ?_ ?_
  · exact h.recorded.concat hunlisted ⟨s, hs, hkind, hopener⟩
  · trivial
  · intro c hne
    apply (h.fits c).mono
    · intro type' process' handle' hopened
      obtain ⟨⟨s', hs', -, -, hcall'⟩, -⟩ := h.opened hopened
      -- the slot of the handle has the socket of one call
      have hhandle : handle' ≠ handle := by
        rintro rfl
        rw [hs, Option.some.injEq] at hs'
        rw [← hs', hcall, Option.some.injEq] at hcall'
        exact hne hcall'.symm
      refine ⟨Keeps.of_eq rfl, fun e he ↦ ?_⟩
      rcases List.mem_append.mp he with he | he
      · exact he
      · exact absurd (congrArg Prod.fst (List.mem_singleton.mp he)) hhandle
    · rintro process' handle' - ⟨e, he, hprocess⟩
      exact ⟨e, List.mem_append_left _ he, hprocess⟩
    · exact fun _ ↦ rfl

private theorem closeLock {owned : Bool} (hc : n.pc call = .closeStart process handle owned) :
    (n.closeLock call process handle owned).Coherent := by
  have hfits := h.fits_of_eq hc
  rw [Stack.closeLock]
  split
  · exact h
  next hfree => exact h.lock hquiet hc nofun hfree ⟨hfits, rfl⟩

private theorem closeCheck {owned : Bool} (hc : n.pc call = .closeLocked process handle owned) :
    (n.closeCheck call process handle).Coherent := by
  have hfits := h.fits_of_eq hc
  have hpanic (howned : owned ≠ true) : (n.panic call).Coherent := by
    refine ⟨h.recorded, h.fits, h.begun, fun c hcall ↦ ⟨process, handle, ?_⟩⟩
    cases hcall
    rw [← (Bool.not_eq_true _).mp howned]
    exact hc
  rw [Stack.closeCheck]
  split
  · exact h
  split
  next hnone =>
    apply hpanic
    intro howned
    obtain ⟨e, he, -⟩ := hfits.1 howned
    exact entry_none.mp hnone e he
  next e hentry =>
    have he := h.entry_eq.mp hentry
    split
    next hprocess =>
      apply hpanic
      intro howned
      obtain ⟨e', he', hprocess'⟩ := hfits.1 howned
      rw [h.recorded.entry_unique he he'] at hprocess
      exact hprocess hprocess'
    next hprocess =>
      refine h.move hquiet hc nofun rfl rfl h.recorded ?_ ?_
      · exact ⟨⟨e, he, Classical.not_not.mp hprocess⟩, hfits.2⟩
      · exact fun c _ ↦ h.fits c

private theorem closeRemove (hc : n.pc call = .closeChecked process handle)
    (hcalm : n.mapLock = none →
      ∀ c < n.calls, c ≠ call → (n.pc c).closes ≠ some (process, handle)) :
    (n.closeRemove call handle).Coherent := by
  have hfits := h.fits_of_eq hc
  obtain ⟨⟨e, he, hprocess⟩, hlock⟩ := hfits
  rw [Stack.closeRemove]
  split
  · exact h
  next hmap =>
    have hother := hcalm (Option.not_isSome_iff_eq_none.mp hmap)
    rw [h.entry_eq.mpr he]
    have hsub : (withoutEntry handle n.socketProcess).Sublist n.socketProcess :=
      List.filter_sublist
    refine h.move hquiet hc nofun rfl rfl (h.recorded.sublist hsub) trivial
      fun c hne ↦ ?_
    apply (h.fits c).mono
    · exact fun _ _ _ _ ↦ ⟨Keeps.of_eq rfl, fun _ he ↦ hsub.subset he⟩
    · rintro process' handle' hcloses ⟨e', he', hprocess'⟩
      refine ⟨e', List.mem_filter.mpr ⟨he', bne_iff_ne.mpr ?_⟩, hprocess'⟩
      rintro rfl
      -- the other call is of the same process, since the handle has one entry
      rw [h.recorded.entry_unique he' he, hprocess] at hprocess'
      have hbegun : c < n.calls := h.lt_calls fun hidle ↦ by
        rw [hidle] at hcloses
        exact absurd hcloses nofun
      exact hother c hbegun hne (hprocess' ▸ hcloses)
    · exact fun hholds ↦ absurd hholds (h.not_holds_other hlock hne)

private theorem pollLock {configured : Bool}
    (hc : n.pc call = .pollStart configured) : (n.pollLock call configured).Coherent := by
  have hcard := h.fits_of_eq hc
  rw [Stack.pollLock]
  split
  · exact h.move hquiet hc nofun rfl rfl h.recorded trivial fun c _ ↦ h.fits c
  next hfree => exact h.lock hquiet hc nofun hfree ⟨hcard, rfl⟩

private theorem pollCollect {configured : Bool}
    (hc : n.pc call = .pollLocked configured)
    (hcalm : n.mapLock = none → ∀ c < n.calls, (n.pc c).unrecorded = false) :
    (n.pollCollect call configured).Coherent := by
  have hfits := h.fits_of_eq hc
  obtain ⟨hdns, hdhcp⟩ := h.recorded.system hfits.1
  rw [Stack.pollCollect, if_neg (by rw [hasKind_of_names hdhcp]; nofun),
    if_neg (by rw [hasKind_of_names hdns]; rintro ⟨-, hno⟩; exact absurd hno nofun)]
  split
  · exact h
  next hmap =>
    have hrecorded := hcalm (Option.not_isSome_iff_eq_none.mp hmap)
    refine h.move hquiet hc nofun rfl rfl ?_ trivial fun c hne ↦ ?_
    · apply h.recorded.keep
      · exact fun handle e he ↦ keeps_foldl_remove (not_collected (.inl ⟨e, he⟩))
      · exact fun _ ↦ ⟨keeps_foldl_remove (not_collected (.inr (.inl rfl))),
          keeps_foldl_remove (not_collected (.inr (.inr rfl)))⟩
    · apply (h.fits c).mono
      · intro type process handle hopened
        refine ⟨keeps_foldl_remove fun hmem ↦ ?_, fun _ ↦ id⟩
        obtain ⟨⟨s, hs, hkind, -⟩, -⟩ := h.opened hopened
        have hbegun : c < n.calls := h.lt_calls (by rw [hopened]; nofun)
        have hnew := hrecorded c hbegun
        rw [hopened] at hnew
        -- the call is an `open_icmp`, whose socket is never removed here
        cases type with
        | udp | tcp => exact absurd hnew nofun
        | icmp =>
          obtain ⟨s', hs', hcollects⟩ := Slab.mem_handles.mp hmem
          rw [hs, Option.some.injEq] at hs'
          rw [collects, ← hs', hkind, Bool.and_false, Bool.false_and] at hcollects
          exact absurd hcollects nofun
      · exact fun _ _ _ ↦ id
      · exact fun hholds ↦ absurd hholds (h.not_holds_other hfits.2 hne)

private theorem exitLock (hc : n.pc call = .exitStart process) :
    (n.exitLock call process).Coherent := by
  rw [Stack.exitLock]
  split
  · exact h
  · exact h.move hquiet hc nofun rfl rfl h.recorded trivial fun c _ ↦ h.fits c

end

end Coherent

private theorem closeAll_eq {handles : List Nat} (hnodup : handles.Nodup) {sockets : Slab Socket}
    (hlive : ∀ handle ∈ handles, sockets.get handle ≠ none) (map : List (Nat × Entry)) :
    closeAll handles sockets map =
      some (handles.foldl Slab.remove sockets, map.filter fun e ↦ !handles.contains e.1) := by
  induction handles generalizing sockets map with
  | nil =>
    rw [closeAll, List.foldl_nil, List.filter_eq_self.mpr]
    exact fun _ _ ↦ rfl
  | cons handle handles ih =>
    obtain ⟨hnew, hnodup⟩ := List.nodup_cons.mp hnodup
    obtain ⟨s, hs⟩ := Option.ne_none_iff_exists'.mp (hlive handle List.mem_cons_self)
    rw [closeAll, hs]
    dsimp only
    rw [ih hnodup, withoutEntry, List.filter_filter, List.foldl_cons]
    · congr 2
      apply List.filter_congr
      intro e _
      rw [List.contains_cons, Bool.not_or, Bool.and_comm]
      rfl
    · intro other hother
      rw [Slab.get_remove, if_neg]
      · exact hlive other (List.mem_cons_of_mem _ hother)
      · rintro rfl
        exact hnew hother

private theorem mem_handlesOf {map : List (Nat × Entry)} :
    handle ∈ handlesOf process map ↔ Owns map process handle := by
  rw [handlesOf, List.mem_map]
  constructor
  · rintro ⟨⟨_, e⟩, he, rfl⟩
    obtain ⟨he, hprocess⟩ := List.mem_filter.mp he
    exact ⟨e, he, beq_iff_eq.mp hprocess⟩
  · rintro ⟨e, he, hprocess⟩
    exact ⟨(handle, e), List.mem_filter.mpr ⟨he, beq_iff_eq.mpr hprocess⟩, rfl⟩

namespace Coherent

variable {n : Stack} {call : Nat}

section

variable (h : n.Coherent)
include h

private theorem not_owns_system (hkernel : process ≠ n.kernel)
    (hnames : Names n.sockets handle kind n.kernel) : ¬ Owns n.socketProcess process handle := by
  rintro ⟨e, he, hprocess⟩
  obtain ⟨s, hs, -, hopener⟩ := h.recorded.live handle e he
  obtain ⟨s', hs', -, hopener'⟩ := hnames
  rw [hs, Option.some.injEq] at hs'
  rw [← hs', hopener] at hopener'
  exact hkernel (hprocess.symm.trans hopener')

private theorem exitClose (hquiet : n.panicked = none)
    (hc : n.pc call = .exitLocked process) (hcalm : n.socketsLock = none →
      process ≠ n.kernel ∧ ∀ c < n.calls, (n.pc c).closes.map (·.1) ≠ some process) :
    (n.exitClose call process).Coherent := by
  rw [Stack.exitClose]
  split
  · exact h
  next hlock =>
    have hfree := Option.not_isSome_iff_eq_none.mp hlock
    obtain ⟨hkernel, hclosing⟩ := hcalm hfree
    have hnodup : (handlesOf process n.socketProcess).Nodup :=
      h.recorded.keyed.sublist (List.filter_sublist.map _)
    have hlive (handle : Nat) (hmem : handle ∈ handlesOf process n.socketProcess) :
        n.sockets.get handle ≠ none := by
      obtain ⟨e, he, -⟩ := mem_handlesOf.mp hmem
      exact (h.recorded.live handle e he).get_ne_none
    rw [closeAll_eq hnodup hlive]
    have hsub : (n.socketProcess.filter fun e ↦
        !(handlesOf process n.socketProcess).contains e.1).Sublist n.socketProcess :=
      List.filter_sublist
    have hmem {handle : Nat} {e : Entry}
        (he : (handle, e) ∈ n.socketProcess.filter fun e ↦
          !(handlesOf process n.socketProcess).contains e.1) :
        handle ∉ handlesOf process n.socketProcess := by
      have hnot := (List.mem_filter.mp he).2
      intro hin
      rw [List.contains_iff_mem.mpr hin] at hnot
      exact absurd hnot nofun
    refine h.move hquiet hc nofun rfl rfl ?_ trivial fun c hne ↦ ?_
    · apply (h.recorded.sublist hsub).keep
      · exact fun handle e he ↦ keeps_foldl_remove (hmem he)
      · intro hcard
        obtain ⟨hdns, hdhcp⟩ := h.recorded.system hcard
        exact ⟨keeps_foldl_remove fun hin ↦ h.not_owns_system hkernel hdns (mem_handlesOf.mp hin),
          keeps_foldl_remove fun hin ↦ h.not_owns_system hkernel hdhcp (mem_handlesOf.mp hin)⟩
    · apply (h.fits c).mono
      · intro type process' handle hopened
        refine ⟨keeps_foldl_remove fun hin ↦ ?_, fun e he ↦ hsub.subset he⟩
        obtain ⟨e, he, -⟩ := mem_handlesOf.mp hin
        exact (h.opened hopened).2 e he
      · rintro process' handle hcloses ⟨e, he, hprocess'⟩
        refine ⟨e, List.mem_filter.mpr ⟨he, ?_⟩, hprocess'⟩
        rw [Bool.not_eq_true', ← Bool.not_eq_true, List.contains_iff_mem, mem_handlesOf]
        rintro ⟨e', he', hprocess⟩
        rw [h.recorded.entry_unique he' he, hprocess'] at hprocess
        have hbegun : c < n.calls := h.lt_calls fun hidle ↦ by
          rw [hidle] at hcloses
          exact absurd hcloses nofun
        apply hclosing c hbegun
        rw [hcloses, ← hprocess]
        rfl
      · exact fun hholds ↦ absurd hholds (h.not_holds hfree c)

private theorem start_fits (request : Request) :
    (n.start request).Fits n.card n.sockets n.socketProcess n.socketsLock n.calls := by
  cases request with
  | «open» type process | exit process => trivial
  | close process handle =>
    intro howned
    obtain ⟨e, hentry, hprocess⟩ := (Option.any_eq_true _ _).mp howned
    exact ⟨e, h.entry_eq.mp hentry, beq_iff_eq.mp hprocess⟩
  | poll configured =>
    rw [start]
    split
    next hcard => exact hcard
    · trivial

private theorem begin (hquiet : n.panicked = none) (request : Request) :
    Coherent { n.goto n.calls (n.start request) with calls := n.calls + 1 } where
  recorded := h.recorded
  fits c := by
    show (Function.update n.pc n.calls (n.start request) c).Fits _ _ _ _ _
    rw [Function.update_apply]
    split
    next heq => exact heq ▸ h.start_fits request
    · exact h.fits c
  begun c hc := by
    have hne : c ≠ n.calls := Nat.ne_of_gt hc
    exact (Function.update_of_ne hne _ _).trans (h.begun c (Nat.le_of_succ_le hc))
  calm c hc := by cases hquiet.symm.trans hc

private theorem tcp (handle : Nat) (closed : Bool) :
    Coherent { n with sockets := n.sockets.modify handle fun s ↦ { s with closed := closed } } where
  recorded := h.recorded.keep (fun _ _ _ ↦ keeps_modify handle closed)
    (fun _ ↦ ⟨keeps_modify handle closed, keeps_modify handle closed⟩)
  fits c := (h.fits c).mono (fun _ _ _ _ ↦ ⟨keeps_modify handle closed, fun _ ↦ id⟩)
    (fun _ _ _ ↦ id) (fun _ ↦ rfl)
  begun := h.begun
  calm := h.calm

private theorem stepCall (hquiet : n.panicked = none) (hcalm : n.Calm (.step call)) :
    (n.stepCall call).Coherent := by
  rw [Calm] at hcalm
  rw [Stack.stepCall]
  cases hc : n.pc call with
  | idle | done handle => exact h
  | openStart type process => exact h.openAdd hquiet hc
  | opened type process handle => exact h.openInsert hquiet hc
  | closeStart process handle owned => exact h.closeLock hquiet hc
  | closeLocked process handle owned => exact h.closeCheck hquiet hc
  | closeChecked process handle =>
    rw [hc] at hcalm
    exact h.closeRemove hquiet hc hcalm
  | pollStart configured => exact h.pollLock hquiet hc
  | pollLocked configured =>
    rw [hc] at hcalm
    exact h.pollCollect hquiet hc hcalm
  | exitStart process => exact h.exitLock hquiet hc
  | exitLocked process =>
    rw [hc] at hcalm
    exact h.exitClose hquiet hc hcalm

private theorem step {event : Event} (hcalm : n.Calm event) : (n.step event).Coherent := by
  unfold Stack.step
  split
  · exact h
  next hpanicked =>
    have hquiet := Option.not_isSome_iff_eq_none.mp hpanicked
    cases event with
    | begin request => exact h.begin hquiet request
    | step call => exact h.stepCall hquiet hcalm
    | tcp handle closed => exact h.tcp handle closed

end

private theorem init (kernel : Nat) (card : Bool) : (init kernel card).Coherent := by
  refine ⟨?_, fun _ ↦ trivial, fun _ _ ↦ rfl, nofun⟩
  cases card with
  | false => exact ⟨keyed_nil, nofun, nofun⟩
  | true =>
    have hkeyed : [dnsHandle, dhcpHandle].Nodup := by decide
    refine ⟨hkeyed, fun handle e he ↦ ?_, fun _ ↦ ⟨⟨_, rfl, rfl, rfl⟩, ⟨_, rfl, rfl, rfl⟩⟩⟩
    rcases List.mem_cons.mp he with heq | he
    · cases heq
      exact ⟨_, rfl, rfl, rfl⟩
    · cases List.mem_singleton.mp he
      exact ⟨_, rfl, rfl, rfl⟩

private theorem sound (h : n.Coherent) : n.Sound where
  live := h.recorded.live
  kept call type process handle hc := by
    obtain ⟨⟨s, hs, hkind, -, hcall⟩, -⟩ := h.opened hc
    exact ⟨s, hs, hkind, hcall⟩
  calm := h.calm

end Coherent

/-- In every run whose steps are all calm, in every state that is reached, each handle of
`SOCKET_PROCESS` names a live socket of the kind that was opened for it by the process recorded, the
socket of an open call that is under way is in the set, and no call has panicked but a
`close_socket` of a handle that the caller did not own. -/
theorem sound_of_calm_run {kernel : Nat} {card : Bool} {events : List Event}
    (hcalm : Throughout step Calm (init kernel card) events) :
    ((init kernel card).run events).Sound :=
  (hcalm.invariant (Coherent.init kernel card) (fun _ _ h hc ↦ h.step hc)
    (I := Coherent)).sound

/-- A process opens a UDP socket and closes it, the socket is removed, and another process gets its
slot for a TCP socket. -/
def calmEvents : List Event :=
  [.begin (.open .udp 5), .step 0, .step 0, .begin (.close 5 2), .step 1, .step 1, .step 1,
    .begin (.poll false), .step 2, .step 2, .begin (.open .tcp 6), .step 3, .step 3]

/-- The slot belongs to the second process. -/
theorem sound_of_calm_run_sample :
    ((init 1 true).run calmEvents).socketProcess =
        [(0, ⟨1, .dns⟩), (1, ⟨1, .dhcp⟩), (2, ⟨6, .user .tcp⟩)] ∧
      ((init 1 true).run calmEvents).Sound :=
  ⟨by decide, sound_of_calm_run (by decide)⟩

/-- `poll_sockets` runs between the two sections of an `open_udp`. -/
def pollEvents : List Event :=
  [.begin (.open .udp 5), .step 0, .begin (.poll false), .step 1, .step 1, .step 0]

/-- The socket is removed, and the call returns a handle without a socket. -/
theorem opened_without_socket :
    (2, ⟨5, .user .udp⟩) ∈ ((init 1 true).run pollEvents).socketProcess ∧
      ((init 1 true).run pollEvents).sockets.get 2 = none ∧
      ¬ ((init 1 true).run pollEvents).Sound := by
  have hmem : (2, ⟨5, .user .udp⟩) ∈ ((init 1 true).run pollEvents).socketProcess := by decide
  have hnone : ((init 1 true).run pollEvents).sockets.get 2 = none := by decide
  refine ⟨hmem, hnone, fun h ↦ ?_⟩
  obtain ⟨s, hs, -⟩ := h.live 2 _ hmem
  exact absurd hs nofun

end Stack

end D3OS.Network
