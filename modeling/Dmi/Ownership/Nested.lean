import Dmi.Ownership.Standing

/-!
# Nested spools

The acts of an owner one by one: each keeps `Nests`, if no probe and no walk fails (`Clean`). So,
where no lock file is removed from outside either (`Sound`), the owners of a directory and of one
inside it are never both live (`not_both_nested`).

A probe that cannot open what it probes counts the directory as dead. Then both takes succeed
(`both_nested`).
-/

namespace Dmi.Ownership

open List

open Function (update update_self update_of_ne)
open World (Inside)
open Proc.Pool (Tracked)

variable {ι : Type} [DecidableEq ι]

/-- No probe fails, and no walk does, of the check of an owner with the path. -/
def Clean (own : Path ι) : Act ι → Choice ι → Prop
  -- Its own lock file an owner looks for to know what to undo.
  | .lockFileExists path, .fail => path = own
  | .openDir .probe _, .fail => False
  | .flock .probe _, .fail => False
  | .walkBegin _, .fail => False
  | .walkNext _, .fail => False
  | _, _ => True

instance (own : Path ι) (a : Act ι) (choice : Choice ι) : Decidable (Clean own a choice) := by
  unfold Clean
  split <;> infer_instance

/-- Whatever the answer to an act of the owner `k`, it keeps the invariant. -/
def Keeps (task : ι → Task ι) (w : World ι) (agent : ι → Agent ι) (k : ι) (a : Act ι) : Prop :=
  ∀ ⦃choice r w'⦄, Clean (task k).path a choice → Nests.Acting task w agent k a choice r w' →
    Nests task w' (update agent k ((agent k).next (task k) a r))

namespace Nests

variable {task : ι → Task ι} {w w' : World ι} {agent : ι → Agent ι} {k : ι} {choice : Choice ι}

/-! ### Lock files and directories -/

variable {path : Path ι}

theorem openFile {mode : Mode} : Keeps task w agent k (.openFile mode path) := by
  intro choice r w' hclean h
  have hplain : (Act.openFile mode path).Plain := trivial
  match mode, r with
  | .read, none => exact h.plain hplain rfl
  | .read, some _ => exact h.plain hplain rfl
  | .create, none | .create, some _ | .excl, none => exact h.plain hplain rfl
  | .excl, some file =>
    have ⟨hs, m, hpath⟩ := h.allowed
    have hover : (agent k).check = .ended := by rw [hs]
    refine h.loose hover hover (hplain.live h.answered) ?_ ?_
    · rintro p _ ⟨⟩
      refine ⟨?_, .inr ⟨m, hpath⟩⟩
      cases choice with
      | serve =>
        have hpair : w.openFile .excl path = (some file, w') := Option.some.inj h.answered
        have hat := World.fileAt_openFile_excl (congrArg Prod.fst hpair)
        rwa [hpair] at hat
      | _ => cases h.answered
    · intro p file' q dir _ ho
      have hnone : (agent k).opened = none := by rw [hs]
      cases hnone.symm.trans ho

theorem fileAt : Keeps task w agent k (.fileAt path) := by
  intro choice r w' hclean h
  have hplain : (Act.fileAt path : Act ι).Plain := trivial
  by_cases hr : ∃ file, r = some file ∧ (agent k).file = some file
  · obtain ⟨file, rfl, hfile⟩ := hr
    have ⟨hpath, hnone⟩ := h.allowed
    have hnext : (agent k).next (task k) (.fileAt path) (some file) =
        { agent k with place := some (path, file) } := if_pos hfile
    have hover := h.nests.over_of (.inr (.inr (.inl hnone)))
    refine h.loose hover ?_ (hplain.live h.answered) ?_ ?_ <;> rw [hnext]
    · exact hover
    · rintro p _ ⟨⟩
      refine ⟨?_, .inl ⟨hpath, hfile⟩⟩
      cases choice with
      | serve =>
        have hpair := Prod.mk.inj (Option.some.inj h.answered)
        rw [← hpair.2]
        exact hpair.1
      | _ => cases h.answered
    · intro p file' q dir _ ho
      cases hnone.symm.trans ho
  · refine h.plain hplain ?_
    match r with
    | none => rfl
    | some file => exact if_neg fun hfile => hr ⟨file, rfl, hfile⟩

/-- The lock file goes; the owner has it no more, nor did it need it. -/
theorem unlink : Keeps task w agent k (.unlink path) := by
  intro choice r w' hclean h
  refine h.loose h.allowed.1 h.allowed.1 ?_ nofun nofun
  rcases answer_live h.answered with hlive | ⟨_, he, -⟩ | ⟨he, -⟩
  · exact hlive
  · cases he
  · cases he

theorem rename {source target : Path ι} : Keeps task w agent k (.rename source target) := by
  intro choice r w' hclean h
  have hlive : w'.live = w.live := by
    rcases answer_live h.answered with hlive | ⟨_, he, -⟩ | ⟨he, -⟩
    · exact hlive
    · cases he
    · cases he
  by_cases hr : r = .ok
  · subst hr
    have ⟨htarget, _, hover, file, dir, hfile, hplace, hopened⟩ := h.allowed
    have hdir := ((h.nests.own k).opened hplace hopened).2
    have hpair : w.rename source target = (.ok, w') := by
      cases choice with
      | serve => exact Option.some.inj h.answered
      | _ => cases h.answered
    have hmoves := World.rename_moves (congrArg Prod.fst hpair) hdir
    rw [hpair] at hmoves
    have hplace' : ((agent k).next (task k) (.rename source target) .ok).place =
        some (target, file) := by
      change (agent k).place.map _ = _
      rw [hplace]
      rfl
    have hopened' : ((agent k).next (task k) (.rename source target) .ok).opened =
        some (target, dir) := by
      change (agent k).opened.map _ = _
      rw [hopened]
      rfl
    refine h.loose hover hover hlive ?_ ?_
    · intro p file' hp
      cases hplace'.symm.trans hp
      exact ⟨hmoves.2.trans ((h.nests.own k).place hplace).1, .inl ⟨htarget, hfile⟩⟩
    · intro p file' q dir' hp ho
      cases hplace'.symm.trans hp
      cases hopened'.symm.trans ho
      exact ⟨rfl, hmoves.1⟩
  · have hw : w' = w := by
      cases choice with
      | serve =>
        have hpair : w.rename source target = (r, w') := Option.some.inj h.answered
        rw [← World.rename_ne_ok (fun hok => hr ((congrArg Prod.fst hpair).symm.trans hok)), hpair]
      | fail => exact (answer_fail h.answered).symm
      | _ => cases h.answered
    have hsame : (agent k).next (task k) (.rename source target) r = agent k := by
      match r with
      | .ok => exact absurd rfl hr
      | .exists_ | .error => rfl
    refine h.same hsame rfl (fun _ => hw ▸ .refl ..) ?_
    rw [hlive]
    exact (h.nests.own k).live

variable {kind : Kind} {ino : Ino}

theorem close : Keeps task w agent k (.close kind ino) := by
  intro choice r w' hclean h
  have hplain : (Act.close kind ino : Act ι).Plain := trivial
  cases kind with
  | file =>
    have hover := h.nests.over_of (.inr (.inr (.inr h.allowed)))
    exact h.loose hover hover (hplain.live h.answered) nofun nofun
  | dir =>
    have hover := h.nests.over_of (.inr (.inr (.inr h.allowed)))
    exact h.kept hplain hover hover rfl nofun fun _ => id
  | probe => exact h.plain hplain rfl

/-! ### The lock object -/

/-- The owner holds its directory, and begins to look. -/
theorem hold {held : Held ι} : Keeps task w agent k (.hold held) := by
  intro choice r w' hclean h
  have hplain : (Act.hold held).Plain := trivial
  have ⟨hpath, hfile, hdir, hplace, hopened, hover⟩ := h.allowed
  cases htask : task k with
  | tryAdopt path =>
    have hcheck : ((agent k).next (task k) (.hold held) r).check = .ended := by
      rw [htask]
      rfl
    rw [← htask]
    exact h.kept hplain hover hcheck rfl (fun _ => id) fun _ => id
  | acquire path =>
    have hcheck : ((agent k).next (task k) (.hold held) r).check =
        .climbing (ancestors (task k).path) none := by
      rw [htask]
      rfl
    rw [← htask]
    have hspares : ∀ {p file}, (agent k).place = some (p, file) → Spares none w w' p :=
      fun hp => hplain.spares h.nests.tree h.answered ((h.nests.own k).place hp).1
    refine h.act ?_ ?_ ?_
    · refine ⟨fun hp => ?_, fun hp ho => ?_, fun _ => ⟨held, ?_, hpath⟩, fun hc => ?_, fun hl => ?_⟩
      · rw [(hspares hp).file]
        exact (h.nests.own k).place hp
      · rw [(hspares hp).dir]
        exact (h.nests.own k).opened hp ho
      · simp only [Agent.holding, Agent.both, Agent.next, hfile, hdir, hplace, hopened]
      · cases hcheck.symm.trans hc
        exact ⟨fun outer ho => mem_ancestors.mp ho, nofun⟩
      · rw [hplain.live h.answered] at hl
        exact fun ht => absurd ht ((h.nests.own k).not_live hover hl)
    · intro j _ _ _
      rw [hcheck]
      trivial
    · intro i _ hinside hpast
      rw [hcheck] at hpast
      exact absurd (mem_ancestors.mpr hinside) hpast

theorem removes : Keeps task w agent k .removes := by
  intro choice r w' hclean h
  refine h.ended rfl (.of_over rfl ?_ ?_ ?_)
  all_goals cases choice <;> cases h.answered
  · exact (h.nests.own k).place
  · exact (h.nests.own k).opened
  · intro hl
    change update w.live k false k = true at hl
    rw [update_self] at hl
    cases hl

/-! ### The check -/

/-- The check goes on. It leaves no outer directory behind that an owner stands at, and has still to
find those inside. -/
theorem Acting.checks {a : Act ι} {r : a.Res} (h : Acting task w agent k a choice r w')
    {c : Check ι}
    (hnext : (agent k).next (task k) a r = { agent k with check := c })
    (hactive : (agent k).check.Active) (hplants : ¬ a.Plants) (hlive : w'.live = w.live)
    (hclimbs : ∀ {rest dir}, c = .climbing rest dir →
      (∀ outer ∈ rest, Inside outer (task k).path) ∧
      ∀ d, dir = some d → ∃ outer, rest.head? = some outer ∧ w.dirs.get? outer = some d)
    (hout : ∀ {j}, j ≠ k → Inside (task k).path (task j).path →
      (agent j).check.Past (task k).path → c.Finds w' k (task j).path)
    (hpast : ∀ {i}, (agent i).check ≠ .ended → Inside (task i).path (task k).path →
      c.Past (task i).path → (agent k).check.Past (task i).path) :
    Nests task w' (update agent k ((agent k).next (task k) a r)) := by
  obtain ⟨hdirs, hfiles, -, hpending⟩ := answer_tree hplants h.answered
  have hspares : ∀ p, Spares (a.walker k) w w' p := fun p => .of_eq hdirs hfiles hpending
  have hover : (agent k).check ≠ .ended := by
    intro he
    rw [he] at hactive
    exact hactive
  refine h.act ?_ ?_ ?_ <;> rw [hnext]
  · refine ⟨fun hp => ?_, fun hp ho => ?_, fun _ => ?_, fun hc => ?_, fun hl ht => ?_⟩
    · rw [(hspares _).file]
      exact (h.nests.own k).place hp
    · rw [hdirs]
      exact (h.nests.own k).opened hp ho
    · obtain ⟨held, hheld, hpath⟩ := (h.nests.own k).standing hover
      refine ⟨held, ?_, hpath⟩
      rw [hheld]
      rfl
    · rw [hdirs]
      exact hclimbs hc
    · rw [hlive] at hl
      rw [(h.nests.own k).live hl ht] at hactive
      exact hactive.elim
  · exact hout
  · intro i hi hinside hp
    by_cases hov : (agent i).check = .ended
    · rw [hov]
      trivial
    · refine (h.nests.finds hinside (hpast hov hinside hp)).mono (spares_walker (hspares _)) ?_
      exact fun e => hi (Option.some.inj e)

theorem stands (h : Nests task w agent) {i : ι} (hi : (agent i).check ≠ .ended) :
    ∃ file dir, w.fileAt (task i).path = some file ∧ w.dirs.get? (task i).path = some dir ∧
      w.locks dir = some ⟨i, .dir⟩ := by
  obtain ⟨held, -, -, hdir, -, -, hfile, hat⟩ := (h.own i).stands hi
  exact ⟨held.file, held.dir, hfile, hat, h.locked.dir hdir⟩

omit [DecidableEq ι] in
theorem past_tail {outer : Path ι} {rest : List (Path ι)} {dir : Option Ino} {p : Path ι}
    (hne : p ≠ outer) (hp : (Check.climbing rest none).Past p) :
    (Check.climbing (outer :: rest) dir).Past p := by
  intro hmem
  exact (mem_cons.mp hmem).elim hne hp

theorem Acting.done {a : Act ι} {r : a.Res} (h : Acting task w agent k a choice r w')
    (hnext : (agent k).next (task k) a r = { agent k with check := (agent k).check.done })
    (hplain : a.Plain) (hplants : ¬ a.Plants) (hactive : (agent k).check.Active)
    (hup : ∀ {i rest dir}, (agent k).check = .climbing ((task i).path :: rest) dir →
      (agent i).check ≠ .ended → Inside (task i).path (task k).path → False)
    (hdown : ∀ {j dir}, (agent k).check = .walking (some (task j).path) dir →
      (agent j).check ≠ .ended → (∀ d, dir = some d → w.dirs.get? (task j).path = some d) →
      False) :
    Nests task w' (update agent k ((agent k).next (task k) a r)) := by
  cases hcheck : (agent k).check with
  | passed | ended =>
    rw [hcheck] at hactive
    exact hactive.elim
  | climbing rest dir =>
    rw [hcheck] at hnext
    refine h.checks hnext hactive hplants (hplain.live h.answered) ?_
      (fun _ _ _ => trivial) ?_
    · rintro _ _ ⟨⟩
      exact ⟨fun outer ho => ((h.nests.own k).climbs hcheck).1 outer (mem_of_mem_tail ho), nofun⟩
    · intro i hi hin hp
      rw [hcheck]
      match rest with
      | [] => exact not_mem_nil
      | outer :: rest =>
        refine past_tail ?_ hp
        rintro rfl
        exact hup hcheck hi hin
  | walking looked dir =>
    have hnone : a.walker k = none := hplain.walker k
    obtain ⟨-, -, -, hpending⟩ := answer_tree hplants h.answered
    have hsame : w'.pending k = w.pending k := hpending k (by rw [hnone]; exact nofun)
    rw [hcheck] at hnext
    refine h.checks hnext hactive hplants (hplain.live h.answered) nofun ?_ ?_
    · intro j hj hin hp
      have hfinds := h.nests.finds hin hp
      rw [hcheck] at hfinds
      change (task j).path ∈ w'.pending k
      rw [hsame]
      cases looked with
      | none => exact hfinds
      | some looked =>
        refine hfinds.resolve_right ?_
        rintro ⟨rfl, hdir⟩
        exact hdown hcheck (Own.past_ne_over hp) hdir
    · intro i _ _ _
      rw [hcheck]
      trivial

theorem lockFileExists : Keeps task w agent k (.lockFileExists path) := by
  intro choice r w' hclean h
  have hplain : (Act.lockFileExists path : Act ι).Plain := trivial
  match r with
  | true => exact h.plain hplain rfl
  | false =>
    rcases h.allowed with hover | ⟨rest, hcheck⟩
    · refine h.plain hplain ?_
      change ({ agent k with check := (agent k).check.done } : Agent ι) = _
      rw [hover]
      change ({ agent k with check := .ended } : Agent ι) = _
      rw [← hover]
    · refine h.done rfl hplain id ?_ ?_ ?_
      · rw [hcheck]
        trivial
      · intro i rest' dir hcheck' hi hin
        cases hcheck.symm.trans hcheck'
        -- An owner that stands there has its lock file there.
        obtain ⟨file, dir, hfile, -⟩ := h.nests.stands hi
        cases choice with
        | serve =>
          have hsome := congrArg Prod.fst (Option.some.inj h.answered)
          rw [hfile] at hsome
          cases hsome
        | fail => exact not_inside_self (hclean ▸ hin)
        | _ => cases h.answered
      · intro j dir hcheck'
        cases hcheck.symm.trans hcheck'

theorem probeDir_none (h : Acting task w agent k (.openDir .probe path) choice none w')
    (hdir : w.dirs.get? path = none) :
    Nests task w' (update agent k ((agent k).next (task k) (.openDir .probe path) none)) := by
  have hlooks : (agent k).check.Looks path := h.allowed
  have hfree : ∀ {i}, (agent i).check ≠ .ended → (task i).path ≠ path := by
    rintro i hi rfl
    obtain ⟨file, dir, -, hat, -⟩ := h.nests.stands hi
    cases hdir.symm.trans hat
  refine h.done rfl trivial id hlooks.active ?_ ?_
  · intro i rest dir hcheck hi _
    rw [hcheck] at hlooks
    exact hfree hi (Option.some.inj hlooks.1)
  · intro j dir hcheck hj _
    rw [hcheck] at hlooks
    exact hfree hj (Option.some.inj hlooks.1)

theorem probeDir_some {dir : Ino}
    (h : Acting task w agent k (.openDir .probe path) choice (some dir) w')
    (hdir : w.dirs.get? path = some dir) (hw : w' = w) :
    Nests task w' (update agent k ((agent k).next (task k) (.openDir .probe path) (some dir))) := by
  subst hw
  have hlooks : (agent k).check.Looks path := h.allowed
  refine h.checks rfl hlooks.active id rfl ?_ ?_ ?_
  all_goals cases hcheck : (agent k).check with
    | passed | ended =>
      rw [hcheck] at hlooks
      exact hlooks.elim
    | climbing rest none' | walking looked none' => ?_
  · rintro _ _ ⟨⟩
    rw [hcheck] at hlooks
    refine ⟨((h.nests.own k).climbs hcheck).1, ?_⟩
    rintro _ ⟨⟩
    exact ⟨path, hlooks.1, hdir⟩
  · exact nofun
  · exact fun _ _ _ => trivial
  · intro j _ hin hp
    rw [hcheck] at hlooks
    obtain ⟨rfl, rfl⟩ := hlooks
    have hfinds := h.nests.finds hin hp
    rw [hcheck] at hfinds
    refine hfinds.imp_right ?_
    rintro ⟨rfl, -⟩
    exact ⟨rfl, fun d hd => Option.some.inj hd ▸ hdir⟩
  · exact fun _ _ => id
  · exact fun _ _ => id

theorem openDir : Keeps task w agent k (.openDir kind path) := by
  intro choice r w' hclean h
  have hplain : (Act.openDir kind path).Plain := trivial
  match kind, r with
  | .file, none | .file, some dir | .dir, none => exact h.plain hplain rfl
  | .dir, some dir =>
    have ⟨hnone, file, hplace⟩ := h.allowed
    have hover := h.nests.over_of (.inr (.inr (.inl hnone)))
    have hpair : w.dirs.get? path = some dir ∧ w = w' := by
      cases choice with
      | serve => exact Prod.mk.inj (Option.some.inj h.answered)
      | _ => cases h.answered
    obtain ⟨hdir, rfl⟩ := hpair
    refine h.loose hover hover rfl (h.nests.own k).place ?_
    rintro p file' q dir' hp ⟨⟩
    cases hplace.symm.trans hp
    exact ⟨rfl, hdir⟩
  | .probe, r =>
    have hpair : w.dirs.get? path = r ∧ w = w' := by
      cases choice with
      | serve => exact Prod.mk.inj (Option.some.inj h.answered)
      | fail => exact hclean.elim
      | _ => cases h.answered
    match r with
    | none => exact probeDir_none h hpair.1
    | some dir => exact probeDir_some h hpair.1 hpair.2.symm

/-- The directory's own lock is free: nobody stands there. -/
theorem probed_ok (h : Acting task w agent k (.flock .probe ino) choice .ok w') :
    Nests task w' (update agent k ((agent k).next (task k) (.flock .probe ino) .ok)) := by
  have hfree : ∀ {i : ι}, w.locks ino ≠ some ⟨i, .dir⟩ := by
    intro i hlock
    cases choice with
    | serve =>
      have hpair : w.flock ⟨k, .probe⟩ ino = (.ok, w') := Option.some.inj h.answered
      rw [World.flock, hlock] at hpair
      simp only [Desc.mk.injEq, reduceCtorEq, and_false, if_false, Prod.mk.injEq,
        false_and] at hpair
    | _ => cases h.answered
  obtain ⟨hactive, hino⟩ := h.allowed
  cases hdir : (agent k).check.dir with
  | none =>
    refine h.plain trivial ?_
    change ({ agent k with check := if (agent k).check.dir.isSome then _ else _ } : Agent ι) = _
    rw [hdir]
    rfl
  | some d =>
    have hnext : (agent k).next (task k) (.flock .probe ino) .ok =
        { agent k with check := (agent k).check.done } := by
      change ({ agent k with check := if (agent k).check.dir.isSome then _ else _ } : Agent ι) = _
      rw [hdir]
      rfl
    have hd : ino = d := hino d hdir
    refine h.done hnext trivial id hactive ?_ ?_
    · intro i rest dir hcheck hi _
      rw [hcheck] at hdir
      obtain ⟨outer, hhead, hat⟩ := ((h.nests.own k).climbs hcheck).2 d hdir
      cases hhead
      obtain ⟨file, dir', -, hat', hlock⟩ := h.nests.stands hi
      cases hat.symm.trans hat'
      exact hfree (hd ▸ hlock)
    · intro j dir hcheck hj hat
      rw [hcheck] at hdir
      obtain ⟨file, dir', -, hat', hlock⟩ := h.nests.stands hj
      cases (hat d hdir).symm.trans hat'
      exact hfree (hd ▸ hlock)

theorem flock : Keeps task w agent k (.flock kind ino) := by
  intro choice r w' hclean h
  have hplain : (Act.flock kind ino : Act ι).Plain := trivial
  match kind, r with
  | .file, .ok =>
    have hnone : (agent k).file = none := h.allowed
    have hover := h.nests.over_of (.inl hnone)
    refine h.kept hplain hover hover rfl (fun _ => id) ?_
    intro file hfile
    cases hnone.symm.trans hfile
  | .file, .busy | .file, .error => exact h.plain hplain rfl
  | .dir, .ok =>
    have hover := h.nests.over_of (.inr (.inl h.allowed.1))
    exact h.kept hplain hover hover rfl (fun _ => id) fun _ => id
  | .dir, .busy | .dir, .error => exact h.plain hplain rfl
  | .probe, .ok => exact probed_ok h
  | .probe, .busy =>
    exact h.checks rfl h.allowed.1 id (hplain.live h.answered) nofun
      (fun _ _ _ => trivial) fun _ _ hp => hp.elim
  | .probe, .error =>
    cases choice with
    | serve =>
      have hfst := congrArg Prod.fst (Option.some.inj h.answered)
      rw [World.flock] at hfst
      cases hlock : w.locks ino with
      | none =>
        rw [hlock] at hfst
        cases hfst
      | some holder =>
        rw [hlock] at hfst
        dsimp only at hfst
        split_ifs at hfst
    | fail => exact hclean.elim
    | _ => cases h.answered

/-! ### The walk -/

theorem walkBegin : Keeps task w agent k (.walkBegin path) := by
  intro choice r w' hclean h
  obtain ⟨hpath, hcheck⟩ := h.allowed
  cases choice with
  | fail => exact hclean.elim
  | number n =>
    cases h.answered
    refine h.checks rfl (by rw [hcheck]; trivial) id rfl nofun ?_ ?_
    · intro j _ hin hp
      obtain ⟨file, dir, hfile, hat, -⟩ := h.nests.stands (Own.past_ne_over hp)
      change (task j).path ∈ update w.pending k (w.nested path) k
      rw [update_self, World.nested, mem_filter, hpath]
      refine ⟨?_, decide_eq_true ⟨hin, by rw [hfile]; rfl⟩⟩
      by_contra hnot
      cases (Dict.get?_eq_none.mpr hnot).symm.trans hat
    · intro i _ _ _
      rw [hcheck]
      exact not_mem_nil
  | _ => cases h.answered

theorem walkNext : Keeps task w agent k (.walkNext path) := by
  intro choice r w' hclean h
  obtain ⟨hpath, hcheck⟩ := h.allowed
  have hactive : (agent k).check.Active := by
    rw [hcheck]
    trivial
  have hpast : ∀ {i : ι}, (agent k).check.Past (task i).path := by
    intro i
    rw [hcheck]
    trivial
  cases choice with
  | fail => exact hclean.elim
  | report inner =>
    cases h.answered
    have hkept : ∀ {j}, Inside (task k).path (task j).path →
        (agent j).check.Past (task k).path → (task j).path ≠ inner →
        (task j).path ∈ update w.pending k ((w.pending k).filter (· ≠ inner)) k := by
      intro j hin hp hne
      have hfinds := h.nests.finds hin hp
      rw [hcheck] at hfinds
      rw [update_self]
      exact mem_filter.mpr ⟨hfinds, decide_eq_true hne⟩
    by_cases hinner : inner = path
    · have hnext : (agent k).next (task k) (.walkNext path) (some inner) =
          { agent k with check := .walking none none } := by
        rw [← hcheck]
        exact if_pos hinner
      refine h.checks hnext hactive id rfl nofun ?_ fun _ _ _ => hpast
      intro j _ hin hp
      exact hkept hin hp fun he => hin.2 ((hinner.trans hpath).symm.trans he.symm)
    · have hnext : (agent k).next (task k) (.walkNext path) (some inner) =
          { agent k with check := .walking (some inner) none } := if_neg hinner
      refine h.checks hnext hactive id rfl nofun ?_ fun _ _ _ => hpast
      intro j _ hin hp
      by_cases hj : (task j).path = inner
      · exact .inr ⟨hj.symm, nofun⟩
      · exact .inl (hkept hin hp hj)
  | _ => cases h.answered

/-- When the walk has come to its end, there is nobody inside. -/
theorem walkEnd : Keeps task w agent k (.walkEnd path) := by
  intro choice r w' hclean h
  obtain ⟨-, hcheck⟩ := h.allowed
  obtain ⟨hend, rfl⟩ := answer_walkEnd h.answered
  refine h.checks rfl (by rw [hcheck]; trivial) id rfl nofun ?_ ?_
  · intro j _ hin hp
    have hfinds := h.nests.finds hin hp
    rw [hcheck] at hfinds
    change (task j).path ∈ w'.pending k at hfinds
    rw [hend] at hfinds
    cases hfinds
  · intro i _ _ _
    rw [hcheck]
    trivial

/-! ### All acts -/

theorem return_ {status : Status} : Keeps task w agent k (.return_ status) := by
  intro choice r w' hclean h
  cases choice <;> cases h.answered
  refine h.same rfl rfl (fun _ => .of_eq rfl rfl fun _ _ => rfl) ?_
  intro hl
  change update w.live k (decide (status = .ok)) k = true at hl
  rw [update_self] at hl
  exact h.allowed (of_decide_eq_true hl)

/-- **Every act of an owner keeps the invariant**, if no probe and no walk fails. -/
theorem keeps (a : Act ι) : Keeps task w agent k a := by
  cases a with
  | isDirectory path | makeDir path | nodeLocal => exact fun _ _ _ _ h => h.plain trivial rfl
  | random | removeDir path | list path => exact fun _ _ _ _ h => h.plain trivial rfl
  | openFile mode path => exact openFile
  | openDir kind path => exact openDir
  | flock kind ino => exact flock
  | close kind ino => exact close
  | fileAt path => exact fileAt
  | lockFileExists path => exact lockFileExists
  | unlink path => exact unlink
  | rename source target => exact rename
  | hold held => exact hold
  | unhold =>
    exact fun _ _ _ _ h => h.kept trivial h.allowed rfl rfl (fun _ => id) fun _ => id
  | walkBegin path => exact walkBegin
  | walkNext path => exact walkNext
  | walkEnd path => exact walkEnd
  | return_ status => exact return_
  | removes => exact removes

/-- A crash leaves the files, and the others, as they are. -/
theorem kill (h : Nests task w agent) : Nests task (w.kill k) (update agent k {}) := by
  refine h.of_owner ⟨h.tree.unique, h.tree.fresh⟩ h.locked.kill ?_ ?_ ?_ ?_ ?_
  · exact fun _ _ => .of_eq rfl rfl fun i hi => update_of_ne (fun e => hi (congrArg some e)) ..
  · exact fun j hj => update_of_ne hj ..
  · refine .of_over rfl nofun nofun fun hl => ?_
    change update w.live k false k = true at hl
    rw [update_self] at hl
    cases hl
  · exact fun _ _ _ => trivial
  · exact fun _ _ hp => hp.elim

end Nests

/-! ### Runs -/

/-- Nobody has begun, in a tree of directories. -/
structure Idle (w : World ι) : Prop extends Unowned w where
  tree : Tree w
  live : ∀ i, w.live i = false

/-- No probe and no walk of a check fails, and no lock file is removed from outside. -/
def Sound (task : ι → Task ι) (s : System ι) : Label ι → Prop
  | .act i choice =>
    match s.prog i with
    | .act a _ => Clean (task i).path a choice
    | _ => True
  | .crash _ => True
  | .remove _ => False

instance (task : ι → Task ι) (s : System ι) (label : Label ι) : Decidable (Sound task s label) :=
  match label with
  | .act i choice =>
    match hprog : s.prog i with
    | .act a _ => decidable_of_iff (Clean (task i).path a choice) (by simp only [Sound, hprog])
    | .ret _ => .isTrue (by simp only [Sound, hprog])
    | .yield l _ => l.elim
  | .crash _ => .isTrue trivial
  | .remove _ => .isFalse id

theorem nests_start {w : World ι} (h : Idle w) (task : ι → Task ι) :
    Tracked (fun i => protocol i (task i)) (fun _ _ _ => True) (Nests task) (start w task) := by
  refine ⟨fun _ => {}, ⟨h.tree, ⟨nofun, nofun, h.held, nofun⟩, fun i => ?_, ?_⟩, fun i =>
    obeys_body i (task i)⟩
  · refine .of_over rfl nofun nofun fun hl => ?_
    change w.live i = true at hl
    rw [h.live i] at hl
    cases hl
  · intro i j _ hp
    exact hp.elim

theorem nests_step {task : ι → Task ι} (hnamed : ∀ i, Named (task i).path) {s s' : System ι}
    {label : Label ι}
    (h : Tracked (fun i => protocol i (task i)) (fun _ _ _ => True) (Nests task) s)
    (hsound : Sound task s label) (hstep : step s label = some s') :
    Tracked (fun i => protocol i (task i)) (fun _ _ _ => True) (Nests task) s' := by
  cases label with
  | act i choice =>
    have hact : Proc.Pool.step answer s (i, choice) = some s' := hstep
    refine h.act hact fun agent a k r w hprog hI ha hanswer => ?_
    have hclean : Clean (task i).path a choice := by
      simp only [Sound, hprog] at hsound
      exact hsound
    exact Nests.keeps a hclean ⟨hnamed, hI, ha, hanswer⟩
  | crash i =>
    cases hstep
    exact h.stop (fun _ hI => hI.kill) trivial
  | remove path => exact hsound.elim

/-- **Nested spools.** Any number of owners take directories with paths of their own, adopt them,
give them up and crash, in any order. In a run where no probe and no walk of their checks fails and
no lock file is removed from outside, the owners of a directory and of one inside it are never both
live: of two calls of `Acquire`, one fails, unless the other's owner has begun to give up or has
crashed. -/
theorem not_both_nested {w : World ι} (hw : Idle w) {task : ι → Task ι}
    (hnamed : ∀ i, Named (task i).path) {labels : List (Label ι)} {s : System ι}
    (hsound : Lts.Along step (Sound task) (start w task) labels)
    (hrun : Lts.run step (start w task) labels = some s) {i j : ι} {outer inner : Path ι}
    (hi : task i = .acquire outer) (hj : task j = .acquire inner) (hin : Inside outer inner) :
    ¬ (s.world.live i = true ∧ s.world.live j = true) := by
  rintro ⟨hlive, hlive'⟩
  obtain ⟨agent, hI, -⟩ :=
    Lts.run_invariant (nests_step hnamed) (nests_start hw task) hsound hrun
  have hpassed := (hI.own i).live hlive ⟨outer, hi⟩
  have hpassed' := (hI.own j).live hlive' ⟨inner, hj⟩
  have hinside : Inside (task i).path (task j).path := by
    rw [hi, hj]
    exact hin
  have hfinds := hI.finds hinside (by rw [hpassed']; trivial)
  rw [hpassed] at hfinds
  exact hfinds

def demoTask : Bool → Task Bool
  | false => .acquire [.name 1]
  | true => .acquire [.name 1, .name 2]

theorem idle_demoWorld : Idle demoWorld where
  locks _ := rfl
  held _ := rfl
  live _ := rfl
  tree := by
    have hitems : ∀ {p dir}, demoWorld.dirs.get? p = some dir →
        (p, dir) ∈ [([], 0), ([.name 1], 1), ([.name 1, .name 2], 2)] := Dict.get?_eq_some.mp
    constructor
    · intro p q dir hp hq
      have hp' := hitems hp
      have hq' := hitems hq
      simp only [mem_cons, Prod.mk.injEq, not_mem_nil, or_false] at hp' hq'
      rcases hp' with ⟨rfl, rfl⟩ | ⟨rfl, rfl⟩ | ⟨rfl, rfl⟩ <;>
        rcases hq' with ⟨rfl, h⟩ | ⟨rfl, h⟩ | ⟨rfl, h⟩ <;> first | rfl | cases h
    · intro p dir hp
      have hp' := hitems hp
      simp only [mem_cons, Prod.mk.injEq, not_mem_nil, or_false] at hp'
      rcases hp' with ⟨-, rfl⟩ | ⟨-, rfl⟩ | ⟨-, rfl⟩ <;> decide

/-- The outer directory is taken, and the inner one is refused. -/
theorem not_both_nested_refused : ∃ s, Lts.run step (start demoWorld demoTask)
    (demoTake false 1 ++ demoServe true 1 ++ [.act true (.status .ok)] ++ demoServe true 15) =
      some s ∧ s.world.live false = true ∧ s.world.live true = false := by
  have hrun : ∃ s, Lts.run step (start demoWorld demoTask)
      (demoTake false 1 ++ demoServe true 1 ++ [.act true (.status .ok)] ++ demoServe true 15) =
        some s ∧ s.world.live false = true := Lts.exists_of_run (by decide +kernel)
  obtain ⟨s, hrun, hlive⟩ := hrun
  have hnamed : ∀ i, Named (demoTask i).path := by
    intro i c hc
    cases i with
    | false => exact ⟨1, mem_singleton.mp hc⟩
    | true =>
      rcases mem_cons.mp hc with rfl | hc
      · exact ⟨1, rfl⟩
      · exact ⟨2, mem_singleton.mp hc⟩
  have hnot := not_both_nested idle_demoWorld hnamed (by decide +kernel) hrun (i := false)
    (j := true) rfl rfl (by decide)
  exact ⟨s, hrun, hlive, Bool.not_eq_true _ ▸ fun h => hnot ⟨hlive, h⟩⟩

/-- **Both a directory and one inside it are taken.** The second owner sees the lock file of the
first, can open neither it nor the directory, and takes the spool for a dead one. -/
theorem both_nested : ∃ s, Lts.run step (start demoWorld demoTask)
    (demoTake false 1 ++ demoServe true 1 ++ [.act true (.status .ok)] ++ demoServe true 8 ++
      [.act true .fail, .act true .fail] ++ demoServe true 1 ++ [.act true (.number 0)] ++
      demoServe true 2) = some s ∧
    (s.world.live false = true ∧ Owns s.world false [.name 1]) ∧
    s.world.live true = true ∧ Owns s.world true [.name 1, .name 2] :=
  Lts.exists_of_run (by decide +kernel)

end Dmi.Ownership
