import RustCfml.Locks.NamedLock

/-!
# Mutual exclusion

`Server.exclusion_of_guarded`: in a run where **no request re-enters exclusively a lock it only
reads and none gives up a lock while one of its bodies goes on**, exclusion holds in every state,
through eviction, time-outs and any nesting. -/

namespace RustCfml.Locks

open StateMachine List Option

/-- Placeholders on top of one guard, a write guard if one of the blocks is exclusive. -/
structure Chain (es : List Held) : Prop where
  placeholders : ∀ h ∈ es.dropLast, h.guard = .reentrant
  guarded : ∀ g ∈ es.getLast?, g.guard ≠ .reentrant
  strong : ∀ g ∈ es.getLast?, ∀ h ∈ es, h.opts.isExclusive = true → g.guard.isWrite = true

lemma Chain.nil : Chain [] := ⟨by simp, by simp, by simp⟩

lemma Chain.tail {h : Held} {es : List Held} (hc : Chain (h :: es)) : Chain es := by
  cases es with
  | nil => exact .nil
  | cons e es =>
    have hlast : (h :: e :: es).getLast? = (e :: es).getLast? := rfl
    refine ⟨fun x hx => hc.placeholders x ?_, fun g hg => hc.guarded g (hlast ▸ hg),
      fun g hg x hx => hc.strong g (hlast ▸ hg) x (mem_cons_of_mem _ hx)⟩
    rw [dropLast_cons_of_ne_nil (cons_ne_nil _ _)]
    exact mem_cons_of_mem _ hx

lemma Chain.reenter {es : List Held} (hc : Chain es) (hne : es ≠ []) (opts : LockOpts)
    (hweak : opts.isExclusive = true → ∀ h ∈ es, h.guard.isRead = false) :
    Chain (⟨opts, .reentrant⟩ :: es) := by
  have hlast : (⟨opts, .reentrant⟩ :: es).getLast? = es.getLast? := by
    cases es with
    | nil => exact absurd rfl hne
    | cons e es => rfl
  refine ⟨fun h hh => ?_, fun g hg => hc.guarded g (hlast ▸ hg), fun g hg h hh hx => ?_⟩
  · rw [dropLast_cons_of_ne_nil hne] at hh
    rcases mem_cons.1 hh with rfl | hh
    · rfl
    · exact hc.placeholders h hh
  · rw [hlast] at hg
    rcases mem_cons.1 hh with rfl | hh
    · -- the guard below is not a placeholder and not a read guard
      have hmem : g ∈ es := mem_of_getLast? hg
      cases hguard : g.guard with
      | write l => rfl
      | read l => exact absurd (hweak hx g hmem) (by simp [hguard, HeldLock.isRead])
      | reentrant => exact absurd hguard (hc.guarded g hg)
    · exact hc.strong g hg h hh hx

namespace Request

lemma entriesOf_cons (h : Held) (r : Request) (waiting : Option (LockOpts × LockId))
    (bodies : List LockOpts) (name : String) :
    entriesOf name ⟨h :: r.held, waiting, bodies⟩ =
      if h.name = name then h :: r.entriesOf name else r.entriesOf name := by
  rw [entriesOf, filter_cons]
  simp [entriesOf]

lemma entriesOf_cons_self (h : Held) (r : Request) (waiting : Option (LockOpts × LockId))
    (bodies : List LockOpts) :
    entriesOf h.name ⟨h :: r.held, waiting, bodies⟩ = h :: r.entriesOf h.name := by
  rw [entriesOf_cons, if_pos rfl]

lemma entriesOf_release (name other : String) (r : Request) : (r.release name).entriesOf other =
      if other = name then (r.entriesOf other).tail else r.entriesOf other := by
  obtain ⟨held, waiting, bodies⟩ := r
  rw [release, entriesOf, entriesOf]
  induction held with
  | nil => simp
  | cons h held ih =>
    by_cases hname : h.name = name
    · rw [eraseP_cons_of_pos (by simpa using hname), filter_cons]
      by_cases hother : other = name
      · simp [hother, hname]
      · have hne : ¬h.name = other := fun he => hother (he.symm.trans hname)
        simp [hother, hne]
    · rw [eraseP_cons_of_neg (by simpa using hname), filter_cons, filter_cons, ih]
      by_cases hother : other = name
      · have hne : ¬h.name = other := fun he => hname (he.trans hother)
        simp [hother, hname]
      · by_cases hh : h.name = other <;> simp [hother, hh]

end Request

/-! ## What holds in every state -/

def Request.Knows (r : Request) (name : String) (l : LockId) : Prop :=
  (∃ h ∈ r.held, h.name = name ∧ h.guard.lock? = some l) ∨
    ∃ opts, r.waiting = some (opts, l) ∧ opts.name = name

lemma Request.Knows.arcs_pos {r : Request} {name : String} {l : LockId} (h : r.Knows name l) :
    0 < r.arcs l := by
  rcases h with ⟨h, hh, -, hl⟩ | ⟨opts, hw, -⟩
  · have : 0 < r.held.countP fun h => h.guard.lock? = some l :=
      countP_pos_iff.2 ⟨h, hh, by simpa using hl⟩
    unfold Request.arcs
    omega
  · simp [Request.arcs, hw]

/-- No writer in one request while the other has the lock, either way round. -/
def Compatible (r r' : Request) : Prop :=
  ∀ l, (0 < r.writeGuards l → r'.guards l = 0) ∧ (0 < r'.writeGuards l → r.guards l = 0)

lemma Compatible.symm {r r' : Request} (h : Compatible r r') : Compatible r' r :=
  fun l => ⟨(h l).2, (h l).1⟩

lemma Compatible.of_le {r0 r r' : Request} (h : Compatible r0 r')
    (hguards : ∀ l, r.guards l ≤ r0.guards l)
    (hwrites : ∀ l, r.writeGuards l ≤ r0.writeGuards l) : Compatible r r' := by
  intro l
  refine ⟨fun hpos => (h l).1 (Nat.lt_of_lt_of_le hpos (hwrites l)), fun hpos => ?_⟩
  have hzero := (h l).2 hpos
  have hle := hguards l
  omega

namespace Server

structure Sound (σ : Server) : Prop where
  named : (σ.namedLocks.map Prod.fst).Nodup
  known : ∀ r ∈ σ.requests, ∀ name l, r.Knows name l → (name, l) ∈ σ.namedLocks
  chains : ∀ r ∈ σ.requests, ∀ name, Chain (r.entriesOf name)
  parked : ∀ r ∈ σ.requests, ∀ opts l, r.waiting = some (opts, l) → r.entriesOf opts.name = []
  compatible : σ.requests.Pairwise Compatible

lemma Sound.init : Sound .init :=
  ⟨nodup_nil, by simp [Server.init], by simp [Server.init], by simp [Server.init], Pairwise.nil⟩

variable {l : LockId} {r' : Request}

variable {σ : Server}

lemma Sound.lock_unique (hs : σ.Sound) {name : String} {l' : LockId}
    (h : (name, l) ∈ σ.namedLocks) (h' : (name, l') ∈ σ.namedLocks) : l = l' :=
  congrArg Prod.snd (inj_on_of_nodup_map hs.named h h' rfl)

lemma Sound.setRequest (hs : σ.Sound) {i : Nat} (r : Request)
    (hknown : ∀ name l, r.Knows name l → (name, l) ∈ σ.namedLocks)
    (hchain : ∀ name, Chain (r.entriesOf name))
    (hparked : ∀ opts l, r.waiting = some (opts, l) → r.entriesOf opts.name = [])
    (hcomp : ∀ j r', j ≠ i → σ.requests[j]? = some r' → Compatible r r') :
    (σ.setRequest i r).Sound := by
  refine ⟨hs.named, fun r' hr' => ?_, fun r' hr' => ?_, fun r' hr' => ?_, pairwise_iff_getElem.2 ?_⟩
  · rcases mem_or_eq_of_mem_set hr' with hold | rfl
    · exact hs.known r' hold
    · exact hknown
  · rcases mem_or_eq_of_mem_set hr' with hold | rfl
    · exact hs.chains r' hold
    · exact hchain
  · rcases mem_or_eq_of_mem_set hr' with hold | rfl
    · exact hs.parked r' hold
    · exact hparked
  · intro a b ha hb hab
    rw [Server.setRequest, length_set] at ha hb
    simp only [Server.setRequest, getElem_set]
    have hold := pairwise_iff_getElem.1 hs.compatible a b ha hb hab
    by_cases hia : i = a
    · rw [if_pos hia, if_neg (by omega)]
      exact hcomp b _ (by omega) (getElem?_eq_getElem hb)
    · rw [if_neg hia]
      by_cases hib : i = b
      · rw [if_pos hib]
        exact (hcomp a _ (by omega) (getElem?_eq_getElem ha)).symm
      · rw [if_neg hib]
        exact hold

lemma Sound.compatible_getElem (hs : σ.Sound) {i j : Nat} {r : Request}
    (hi : σ.requests[i]? = some r) (hj : σ.requests[j]? = some r') (hne : j ≠ i) :
    Compatible r r' := by
  obtain ⟨hi', rfl⟩ := List.getElem?_eq_some_iff.1 hi
  obtain ⟨hj', rfl⟩ := List.getElem?_eq_some_iff.1 hj
  have hpair := pairwise_iff_getElem.1 hs.compatible
  rcases Nat.lt_or_gt_of_ne hne with hlt | hlt
  · exact (hpair j i hj' hi' hlt).symm
  · exact hpair i j hi' hj' hlt

lemma one_le_arcs_sum {r : Request} (hr : r ∈ σ.requests)
    (hpos : 0 < r.arcs l) : 0 < (σ.requests.map (Request.arcs l)).sum :=
  List.sum_pos_iff_exists_pos_nat.2 ⟨r.arcs l, mem_map_of_mem hr, hpos⟩

lemma Sound.evict (hs : σ.Sound) (newName : String) : (σ.evictIdleNamedLocks newName).Sound := by
  unfold evictIdleNamedLocks
  split
  · refine ⟨hs.named.sublist (filter_sublist.map _), fun r hr name l hl => ?_, hs.chains, hs.parked,
      hs.compatible⟩
    have hmem := hs.known r hr name l hl
    have hmap : 0 < σ.namedLocks.countP fun e => e.2 = l :=
      countP_pos_iff.2 ⟨(name, l), hmem, by simp⟩
    have hreq : 0 < (σ.requests.map (Request.arcs l)).sum := one_le_arcs_sum hr hl.arcs_pos
    have hcount : 1 < σ.strongCount l := by
      unfold strongCount
      omega
    exact mem_filter.2 ⟨hmem, by simpa using hcount⟩
  · exact hs

@[simp] lemma evict_requests (σ : Server) (newName : String) :
    (σ.evictIdleNamedLocks newName).requests = σ.requests := by
  unfold evictIdleNamedLocks
  split <;> rfl

@[simp] lemma getOrCreate_requests (σ : Server) (name : String) :
    (σ.getOrCreate name).1.requests = σ.requests := by
  unfold getOrCreate
  split <;> rfl

lemma mem_of_lookup {name : String} {es : List (String × LockId)} (h : es.lookup name = some l) :
    (name, l) ∈ es := by
  obtain ⟨l1, l2, rfl, -⟩ := lookup_eq_some_iff.1 h
  simp

lemma getOrCreate_mem (σ : Server) (name : String) :
    (name, (σ.getOrCreate name).2) ∈ (σ.getOrCreate name).1.namedLocks := by
  unfold getOrCreate
  split
  next l hl => exact mem_of_lookup hl
  next => exact mem_cons_self

lemma Sound.getOrCreate (hs : σ.Sound) (name : String) : (σ.getOrCreate name).1.Sound := by
  unfold Server.getOrCreate
  split
  next => exact hs
  next hnone =>
    have hfresh : name ∉ σ.namedLocks.map Prod.fst := by
      intro hin
      obtain ⟨e, he, rfl⟩ := mem_map.1 hin
      have := lookup_eq_none_iff.1 hnone e he
      simp at this
    exact ⟨nodup_cons.2 ⟨hfresh, hs.named⟩,
      fun r hr name l hl => mem_cons_of_mem _ (hs.known r hr name l hl), hs.chains,
      hs.parked, hs.compatible⟩

variable {σ : Server} {i : Nat} {r : Request}

lemma Sound.lookup (hs : σ.Sound) (hr : σ.requests[i]? = some r) (hrun : r.waiting = none)
    (opts : LockOpts) (hno : σ.NoUpgrade (.lookup i opts)) : (σ.lookup i r opts).Sound := by
  have hmem : r ∈ σ.requests := mem_of_getElem? hr
  unfold Server.lookup
  split
  next hheld =>
    refine hs.setRequest _ (fun name l hl => ?_) (fun name => ?_)
      (fun opts' l hw => absurd (hrun.symm.trans hw) (by simp)) fun j r' hj hr' => ?_
    · refine hs.known r hmem name l ?_
      rcases hl with ⟨h, hh, hname, hlock⟩ | hw
      · rcases mem_cons.1 hh with rfl | hh
        · exact absurd hlock (by simp [HeldLock.lock?])
        · exact .inl ⟨h, hh, hname, hlock⟩
      · exact .inr hw
    · rw [Request.entriesOf_cons]
      split
      next hname =>
        subst hname
        refine (hs.chains r hmem _).reenter ?_ opts fun hx h hh => ?_
        · obtain ⟨h, hh, hname⟩ := any_eq_true.1 hheld
          exact ne_nil_of_mem (mem_filter.2 ⟨hh, hname⟩)
        · obtain ⟨hin, hname⟩ := mem_filter.1 hh
          exact hno hx r (by simp [hr]) h hin (of_decide_eq_true hname)
      next => exact hs.chains r hmem name
    · refine (hs.compatible_getElem hr hr' hj).of_le (fun l => ?_) fun l => ?_
      · simp [Request.guards, HeldLock.lock?]
      · simp [Request.writeGuards]
  next hfree =>
    have hfound := (hs.evict opts.name).getOrCreate opts.name
    refine hfound.setRequest _ (fun name l hl => ?_) (hs.chains r hmem) (fun opts' l hw => ?_)
      fun j r' hj hr' => ?_
    · rcases hl with hl | ⟨opts', hw, hname⟩
      · exact hfound.known r (by simpa using hmem) name l (.inl hl)
      · obtain ⟨rfl, rfl⟩ := Prod.mk.inj (some.inj hw)
        exact hname ▸ getOrCreate_mem _ _
    · obtain ⟨rfl, -⟩ := Prod.mk.inj (some.inj hw)
      refine filter_eq_nil_iff.2 fun h hh hname => hfree ?_
      exact any_eq_true.2 ⟨h, hh, hname⟩
    · rw [getOrCreate_requests, evict_requests] at hr'
      have hold := hs.compatible_getElem hr hr' hj
      exact hold.of_le (fun l => le_rfl) fun l => le_rfl

lemma grants_guards (h : σ.grants l true = true) (hr' : r' ∈ σ.requests) : r'.guards l = 0 := by
  have hsum : (σ.requests.map (Request.guards l)).sum = 0 := by simpa [grants] using h
  exact List.sum_eq_zero_iff_forall_eq_nat.1 hsum _ (mem_map_of_mem hr')

lemma grants_writeGuards {x : Bool} (h : σ.grants l x = true) (hr' : r' ∈ σ.requests) :
    r'.writeGuards l = 0 := by
  cases x with
  | true =>
    have hzero := grants_guards h hr'
    have hle : r'.writeGuards l ≤ r'.guards l :=
      countP_mono_left fun h _ hw => by
        have : h.guard = .write l := by simpa using hw
        simp [this, HeldLock.lock?]
    omega
  | false =>
    have hsum : (σ.requests.map (Request.writeGuards l)).sum = 0 := by simpa [grants] using h
    exact List.sum_eq_zero_iff_forall_eq_nat.1 hsum _ (mem_map_of_mem hr')

lemma Sound.acquire (hs : σ.Sound) {held : List Held} {opts : LockOpts} {bodies : List LockOpts}
    (hr : σ.requests[i]? = some ⟨held, some (opts, l), bodies⟩) :
    (σ.acquire i ⟨held, some (opts, l), bodies⟩ opts l).Sound := by
  have hmem := mem_of_getElem? hr
  have hin : (opts.name, l) ∈ σ.namedLocks := hs.known _ hmem _ _ (.inr ⟨opts, rfl, rfl⟩)
  unfold Server.acquire
  split
  next hgrant =>
    have hguard : ∃ g : HeldLock, g = (if opts.isExclusive then .write l else .read l) ∧
        g.lock? = some l ∧ g ≠ .reentrant ∧ (opts.isExclusive = true ↔ g.isWrite = true) := by
      cases opts.isExclusive with
      | true => exact ⟨.write l, rfl, rfl, by simp, by simp [HeldLock.isWrite]⟩
      | false => exact ⟨.read l, rfl, rfl, by simp, by simp [HeldLock.isWrite]⟩
    obtain ⟨g, hg, hlock, hreal, hmode⟩ := hguard
    simp only [← hg]
    refine hs.setRequest _ (fun name l' hl => ?_) (fun name => ?_) (by simp)
      fun j r' hj hr' => ?_
    · rcases hl with ⟨h, hh, hname, hlock'⟩ | ⟨opts', hw, -⟩
      · rcases mem_cons.1 hh with rfl | hh
        · obtain rfl : l = l' := some.inj (hlock.symm.trans hlock')
          exact hname ▸ hin
        · exact hs.known _ hmem name l' (.inl ⟨h, hh, hname, hlock'⟩)
      · exact absurd hw (by simp)
    · have hcons := Request.entriesOf_cons ⟨opts, g⟩ ⟨held, some (opts, l), bodies⟩ none
        (opts :: bodies) name
      rw [hcons]
      split
      next hname =>
        -- nothing of that name was held, so the guard is alone
        have hempty := hs.parked _ hmem opts l rfl
        rw [show opts.name = name from hname] at hempty
        rw [hempty]
        exact ⟨by simp, by simpa using hreal, by simpa using hmode.1⟩
      next => exact hs.chains _ hmem name
    · have hold := hs.compatible_getElem hr hr' hj
      have hmem' := mem_of_getElem? hr'
      intro l'
      have hother := hold l'
      simp only [Request.guards, Request.writeGuards, countP_cons] at hother ⊢
      by_cases hl : l' = l
      · subst hl
        have hw' := grants_writeGuards hgrant hmem'
        simp only [Request.writeGuards] at hw'
        refine ⟨fun hpos => ?_, fun hpos => absurd hpos (by omega)⟩
        by_cases hx : opts.isExclusive = true
        · exact grants_guards (hx ▸ hgrant) hmem'
        · have hnot : g ≠ .write l' := by
            rintro rfl
            exact hx (hmode.2 rfl)
          simp only [hnot, decide_false, Bool.false_eq_true, if_false, Nat.add_zero] at hpos
          exact hother.1 hpos
      · have hne : g.lock? ≠ some l' := by
          rw [hlock]
          exact fun h => hl (some.inj h).symm
        have hnw : g ≠ .write l' := by
          rintro rfl
          exact hne rfl
        simpa [hne, hnw] using hother
  next => exact hs

lemma Sound.shrink (hs : σ.Sound) (hr : σ.requests[i]? = some r) (hheld : r'.held.Sublist r.held)
    (hwaiting : r'.waiting = none) (hchain : ∀ name, Chain (r'.entriesOf name)) :
    (σ.setRequest i r').Sound := by
  refine hs.setRequest _ (fun name l hl => ?_) hchain
    (fun opts l hw => absurd (hwaiting.symm.trans hw) (by simp)) fun j r'' hj hr'' => ?_
  · rcases hl with ⟨h, hh, hname, hlock⟩ | ⟨opts, hw, -⟩
    · exact hs.known r (mem_of_getElem? hr) name l (.inl ⟨h, hheld.subset hh, hname, hlock⟩)
    · rw [hwaiting] at hw
      exact absurd hw (by simp)
  · exact (hs.compatible_getElem hr hr'' hj).of_le (fun l => hheld.countP_le)
      fun l => hheld.countP_le

lemma Sound.same (hs : σ.Sound) (hr : σ.requests[i]? = some r) (hheld : r'.held = r.held)
    (hwaiting : r'.waiting = none) : (σ.setRequest i r').Sound := by
  refine hs.shrink hr (hheld ▸ Sublist.refl _) hwaiting fun name => ?_
  have hchain := hs.chains r (mem_of_getElem? hr) name
  rwa [Request.entriesOf, hheld]

lemma Sound.step (hs : σ.Sound) (op : Op) (hno : σ.NoUpgrade op) : (σ.step op).Sound := by
  cases op with
  | start =>
    refine ⟨hs.named, fun r hr => ?_, fun r hr => ?_, fun r hr => ?_, ?_⟩
    · rcases mem_append.1 hr with hr | hr
      · exact hs.known r hr
      · rw [mem_singleton.1 hr]
        exact fun name l hl => by simp [Request.Knows, Request.init] at hl
    · rcases mem_append.1 hr with hr | hr
      · exact hs.chains r hr
      · rw [mem_singleton.1 hr]
        exact fun name => .nil
    · rcases mem_append.1 hr with hr | hr
      · exact hs.parked r hr
      · rw [mem_singleton.1 hr]
        exact fun opts l hw => absurd hw (by simp [Request.init])
    · refine pairwise_append.2 ⟨hs.compatible, pairwise_singleton _ _, fun r _ r' hr' => ?_⟩
      rw [mem_singleton.1 hr']
      exact fun l => ⟨fun _ => rfl, fun h => absurd h (Nat.lt_irrefl 0)⟩
  | lookup i opts =>
    rw [Server.step]
    split
    next r hr =>
      split
      next hrun => exact hs.lookup hr (isNone_iff_eq_none.1 hrun) opts hno
      next => exact hs
    next => exact hs
  | acquire i =>
    rw [Server.step]
    split
    next held opts l bodies hr => exact hs.acquire hr
    next => exact hs
  | timeout i =>
    rw [Server.step]
    split
    next held opts l bodies hr =>
      split
      · have hchain := hs.chains _ (mem_of_getElem? hr)
        exact hs.shrink hr (Sublist.refl _) rfl hchain
      · exact hs
    next => exact hs
  | leave i =>
    rw [Server.step]
    split
    next r hr =>
      split
      next hw => exact hs.same hr rfl (isNone_iff_eq_none.1 hw)
      next => exact hs
    next => exact hs
  | release i name =>
    rw [Server.step]
    split
    next r hr =>
      split
      next hw =>
        refine hs.shrink hr eraseP_sublist (isNone_iff_eq_none.1 hw) fun other => ?_
        have hchain := hs.chains r (mem_of_getElem? hr) other
        rw [Request.entriesOf_release]
        split
        · cases hes : r.entriesOf other with
          | nil => exact .nil
          | cons h es => exact (hes ▸ hchain).tail
        · exact hchain
      next => exact hs
    next => exact hs
  | finish i =>
    rw [Server.step]
    split
    next r hr =>
      split
      · exact hs.shrink hr (nil_sublist _) rfl fun name => .nil
      · exact hs
    next => exact hs

lemma Sound.guard_of_held (hs : σ.Sound) (hr : r ∈ σ.requests) {h : Held} (hh : h ∈ r.held) :
    ∃ g ∈ r.held, ∃ l, g.guard.lock? = some l ∧ (h.name, l) ∈ σ.namedLocks ∧
      (h.opts.isExclusive = true → g.guard = .write l) := by
  have hchain := hs.chains r hr h.name
  have hin : h ∈ r.entriesOf h.name := mem_filter.2 ⟨hh, by simp⟩
  obtain ⟨g, hg⟩ := ne_none_iff_exists'.1
    (fun hnone => ne_nil_of_mem hin (getLast?_eq_none_iff.1 hnone))
  obtain ⟨hgheld, hgname⟩ := mem_filter.1 (mem_of_getLast? hg)
  have hstrong := hchain.strong g hg h hin
  have hknown (l : LockId) (hl : g.guard.lock? = some l) : (h.name, l) ∈ σ.namedLocks :=
    hs.known r hr _ _ (.inl ⟨g, hgheld, of_decide_eq_true hgname, hl⟩)
  cases hguard : g.guard with
  | write l => exact ⟨g, hgheld, l, by simp [hguard, HeldLock.lock?],
      hknown l (by simp [hguard, HeldLock.lock?]), fun _ => hguard⟩
  | read l =>
    refine ⟨g, hgheld, l, by simp [hguard, HeldLock.lock?],
      hknown l (by simp [hguard, HeldLock.lock?]), fun hx => ?_⟩
    rw [hguard] at hstrong
    exact absurd (hstrong hx) (by simp [HeldLock.isWrite])
  | reentrant => exact absurd hguard (hchain.guarded g hg)

/-- Each body has an entry of its name, over a guard that is good enough for it. -/
structure Covered (r : Request) : Prop where
  guarded : ∀ b ∈ r.bodies, ∃ g ∈ (r.entriesOf b.name).getLast?,
    b.isExclusive = true → g.guard.isWrite = true

lemma Covered.of_entries {r₀ : Request} (hc : Covered r₀) (hsub : r.bodies ⊆ r₀.bodies)
    (hlast : ∀ b ∈ r.bodies,
      (r.entriesOf b.name).getLast? = (r₀.entriesOf b.name).getLast?) : Covered r :=
  ⟨fun b hb => by
    rw [hlast b hb]
    exact hc.guarded b (hsub hb)⟩

/-- A body is entered with a new entry on top. -/
lemma Covered.enter (hc : Covered r) {h : Held} {waiting : Option (LockOpts × LockId)}
    (hchain : Chain (h :: r.entriesOf h.name)) :
    Covered ⟨h :: r.held, waiting, h.opts :: r.bodies⟩ := by
  refine ⟨fun b hb => ?_⟩
  rw [Request.entriesOf_cons]
  rcases mem_cons.1 hb with rfl | hb
  · rw [if_pos (show h.name = h.opts.name from rfl)]
    obtain ⟨g, hg⟩ := ne_none_iff_exists'.1
      (mt getLast?_eq_none_iff.1 (cons_ne_nil h (r.entriesOf h.name)))
    exact ⟨g, hg, hchain.strong g hg h mem_cons_self⟩
  · obtain ⟨g, hg, hw⟩ := hc.guarded b hb
    split
    next hname =>
      refine ⟨g, ?_, hw⟩
      obtain ⟨e, es, hes⟩ := exists_cons_of_ne_nil (ne_nil_of_mem (mem_of_getLast? hg))
      rw [hes] at hg ⊢
      exact hg
    next => exact ⟨g, hg, hw⟩

lemma Covered.release (hc : Covered r) {name : String}
    (hkeep : r.inBody name = true → (r.entriesOf name).tail.isEmpty = false) :
    Covered (r.release name) := by
  refine hc.of_entries (Subset.refl _) fun b hb => ?_
  rw [Request.entriesOf_release]
  split
  next hname =>
    have hin : r.inBody name = true := any_eq_true.2 ⟨b, hb, by simpa using hname⟩
    cases hes : r.entriesOf b.name with
    | nil => rfl
    | cons e es =>
      have hne := hkeep hin
      rw [← hname, hes, tail_cons] at hne
      cases es with
      | nil => cases hne
      | cons e' es => rfl
  next => rfl

def AllCovered (σ : Server) : Prop := ∀ r ∈ σ.requests, Covered r

lemma AllCovered.set (h : AllCovered σ) (hr' : Covered r') : AllCovered (σ.setRequest i r') := by
  intro r hr
  rcases mem_or_eq_of_mem_set hr with hold | rfl
  · exact h r hold
  · exact hr'

lemma AllCovered.lookup (hs : (σ.lookup i r opts).Sound) (h : AllCovered σ)
    (hr : σ.requests[i]? = some r) : AllCovered (σ.lookup i r opts) := by
  have hmem := mem_of_getElem? hr
  obtain ⟨hi, -⟩ := List.getElem?_eq_some_iff.1 hr
  unfold Server.lookup at hs ⊢
  split at hs
  next hheld =>
    rw [if_pos hheld]
    refine h.set ((h r hmem).enter ?_)
    rw [← Request.entriesOf_cons_self]
    exact hs.chains _ (mem_set hi _) _
  next hfree =>
    rw [if_neg hfree]
    have hkept : AllCovered ((σ.evictIdleNamedLocks opts.name).getOrCreate opts.name).1 := by
      unfold AllCovered
      rw [getOrCreate_requests, evict_requests]
      exact h
    exact hkept.set ⟨(h r hmem).guarded⟩

lemma AllCovered.acquire (hs : (σ.acquire i r opts l).Sound) (h : AllCovered σ)
    (hr : σ.requests[i]? = some r) : AllCovered (σ.acquire i r opts l) := by
  obtain ⟨hi, -⟩ := List.getElem?_eq_some_iff.1 hr
  unfold Server.acquire at hs ⊢
  split at hs
  next hgrant =>
    rw [if_pos hgrant]
    refine h.set ((h r (mem_of_getElem? hr)).enter ?_)
    rw [← Request.entriesOf_cons_self]
    exact hs.chains _ (mem_set hi _) _
  next hgrant =>
    rw [if_neg hgrant]
    exact h

lemma AllCovered.step (hs : (σ.step op).Sound) (h : AllCovered σ) (hkeep : σ.KeepsGuard op) :
    AllCovered (σ.step op) := by
  cases op with
  | start =>
    intro r hr
    rcases mem_append.1 hr with hr | hr
    · exact h r hr
    · rw [mem_singleton.1 hr]
      exact ⟨by simp [Request.init]⟩
  | lookup i opts =>
    rw [Server.step] at hs ⊢
    split at hs
    next r hr =>
      split at hs
      next hw =>
        rw [if_pos hw]
        exact AllCovered.lookup hs h hr
      next hw =>
        rw [if_neg hw]
        exact h
    next => exact h
  | acquire i =>
    rw [Server.step] at hs ⊢
    split at hs
    next held opts l bodies hr => exact AllCovered.acquire hs h hr
    next => exact h
  | timeout i =>
    rw [Server.step]
    split
    next held opts l bodies hr =>
      split
      · exact h.set ⟨(h _ (mem_of_getElem? hr)).guarded⟩
      · exact h
    next => exact h
  | leave i =>
    rw [Server.step]
    split
    next r hr =>
      split
      · exact h.set ((h r (mem_of_getElem? hr)).of_entries (tail_subset _) fun _ _ => rfl)
      · exact h
    next => exact h
  | release i name =>
    rw [Server.step]
    split
    next r hr =>
      split
      · exact h.set ((h r (mem_of_getElem? hr)).release (hkeep r (by simp [hr])))
      · exact h
    next => exact h
  | finish i =>
    rw [Server.step]
    split
    next r hr =>
      split
      · exact h.set ⟨by simp [Request.init]⟩
      · exact h
    next => exact h

lemma Sound.guard_of_body (hs : σ.Sound) (hc : AllCovered σ) (hr : r ∈ σ.requests) {b : LockOpts}
    (hb : b ∈ r.bodies) : ∃ g ∈ r.held, ∃ l, g.guard.lock? = some l ∧ (b.name, l) ∈ σ.namedLocks ∧
      (b.isExclusive = true → g.guard = .write l) := by
  obtain ⟨g, hg, hw⟩ := (hc r hr).guarded b hb
  obtain ⟨hgheld, hgname⟩ := mem_filter.1 (mem_of_getLast? hg)
  obtain ⟨g', hg', l, hl, hin, -⟩ := hs.guard_of_held hr hgheld
  have hname : g.name = b.name := of_decide_eq_true hgname
  have hreal := (hs.chains r hr b.name).guarded g hg
  have hknown (l : LockId) (hl : g.guard.lock? = some l) : (b.name, l) ∈ σ.namedLocks :=
    hs.known r hr _ _ (.inl ⟨g, hgheld, hname, hl⟩)
  cases hguard : g.guard with
  | write l => exact ⟨g, hgheld, l, by simp [hguard, HeldLock.lock?],
      hknown l (by simp [hguard, HeldLock.lock?]), fun _ => hguard⟩
  | read l =>
    refine ⟨g, hgheld, l, by simp [hguard, HeldLock.lock?],
      hknown l (by simp [hguard, HeldLock.lock?]), fun hx => ?_⟩
    rw [hguard] at hw
    exact absurd (hw hx) (by simp [HeldLock.isWrite])
  | reentrant => exact absurd hguard hreal

lemma Sound.not_exclusive (hs : σ.Sound) (hc : AllCovered σ) (hr : r ∈ σ.requests)
    (hr' : r' ∈ σ.requests) (hcomp : Compatible r r') {b b' : LockOpts} (hb : b ∈ r.bodies)
    (hb' : b' ∈ r'.bodies) (hname : b.name = b'.name) : b.isExclusive = false := by
  by_contra hx
  obtain ⟨g, hg, l, -, hin, hwrite⟩ := hs.guard_of_body hc hr hb
  obtain ⟨g', hg', l', hl', hin', -⟩ := hs.guard_of_body hc hr' hb'
  obtain rfl : l = l' := hs.lock_unique hin (hname ▸ hin')
  have hpos : 0 < r.writeGuards l :=
    countP_pos_iff.2 ⟨g, hg, by simpa using hwrite (by simpa using hx)⟩
  have hzero : r'.guards l = 0 := (hcomp l).1 hpos
  have hpos' : 0 < r'.guards l := countP_pos_iff.2 ⟨g', hg', by simpa using hl'⟩
  omega

lemma Sound.exclusion (hs : σ.Sound) (hc : AllCovered σ) : σ.Exclusion := by
  refine hs.compatible.imp_of_mem fun {r r'} hr hr' hcomp b hb b' hb' hname => ?_
  exact ⟨hs.not_exclusive hc hr hr' hcomp hb hb' hname,
    hs.not_exclusive hc hr' hr hcomp.symm hb' hb hname.symm⟩

/-- **Mutual exclusion.** In a run where no request re-enters exclusively what it only reads, and
none releases the lock of a body it is in, no two requests are ever in bodies of one name if one of
the two is exclusive. -/
theorem exclusion_of_guarded {ops : List Op}
    (h : EachStep Server.step Server.Guarded .init ops) :
    Along Server.step Server.Exclusion .init ops := by
  refine along_of_invariant (I := fun σ => σ.Sound ∧ AllCovered σ)
    (fun _ hi => hi.1.exclusion hi.2)
      (fun σ op hi hg => ?_) ⟨Sound.init, by simp [AllCovered, init]⟩ h
  have hs := hi.1.step op hg.1
  exact ⟨hs, AllCovered.step hs hi.2 hg.2⟩

end Server

def readonlyLock : LockOpts := ⟨"cart", "readonly", 0, true, "lock with name [cart]"⟩

def exclusiveLock : LockOpts := ⟨"cart", "exclusive", 0, true, "lock with name [cart]"⟩

/-- The second request waits until the first has left. -/
def takingTurns : List Server.Op :=
  [.start, .start, .lookup 0 exclusiveLock, .acquire 0, .lookup 0 readonlyLock,
   .lookup 1 readonlyLock, .acquire 1, .leave 0, .release 0 "cart", .leave 0, .release 0 "cart",
   .acquire 1]

theorem exclusion_takingTurns : EachStep Server.step Server.Guarded .init takingTurns ∧
      Along Server.step Server.Exclusion .init takingTurns := by
  have h : EachStep Server.step Server.Guarded .init takingTurns := by
    refine ⟨?_, ?_, ?_, ?_, ?_, ?_, ?_, ?_, ?_, ?_, ?_, ?_, trivial⟩
    all_goals exact ⟨by decide, by decide⟩
  exact ⟨h, Server.exclusion_of_guarded h⟩

/-- Two readers, and then one of them asks for the lock exclusively. -/
def readersUpgrade : List Server.Op :=
  [.start, .start, .lookup 0 readonlyLock, .acquire 0, .lookup 1 readonlyLock, .acquire 1,
   .lookup 0 exclusiveLock]

/-- `lock name="cart" { lock name="#x#" { x = "cart"; } … }` with another name in `x` at first, and
a second request. -/
def outerReleased : List Server.Op :=
  [.start, .start, .lookup 0 exclusiveLock, .acquire 0,
    .lookup 0 { exclusiveLock with name := "b" },
   .acquire 0, .leave 0, .release 0 "cart", .lookup 1 exclusiveLock, .acquire 1]

/-- Both requests are in a body of the lock, the first in an exclusive one. -/
theorem readersUpgrade_not_exclusion : ¬(readersUpgrade.foldl Server.step .init).Exclusion ∧
    ¬(outerReleased.foldl Server.step .init).Exclusion := by
  decide

end RustCfml.Locks
