-- SUMMARY: What the HTTP-01 primitive may touch, and the links under a webroot that a removal follows.
import Tracenium.Acme.Http01
import Tracenium.Rcp.Confinement

/-!
A publication looks at each directory before it goes on, so the file is where its path says. A removal looks at
the file only, and the system follows the directories to it.
-/

open Utf16 Rcp Disk List Except

namespace Acme

open FileTree

section Spec

variable (sys : System) (deps : Http01Deps) (disk : Volume) (params : Json)

/-- The real path of the requested webroot, under an allowed root, and the token. -/
structure IsTarget (real : AbsPath .linux) (token : Token) : Prop where
  token : stringOf (params.field (text "token")) = some token.text
  webroot : ∃ webroot, normalizeWebroot sys.workingDir (params.field (text "webroot")) = some webroot ∧
    disk.tree.resolve sys.maxLinks webroot = some real
  allowed : ∃ root ∈ allowedRoots sys deps, (resolve sys.workingDir root).names <+: real.names

/-- Nothing, or a regular file. -/
def IsPlain {ρ ν : Type*} : Option (Entry ρ ν) → Prop
  | none | some (.file _) => True
  | _ => False

/-- One regular file is touched, where its path says, and directories are made on the way to it. -/
structure Confined (reply : Reply) : Prop where
  touched : ∀ k, reply.disk.entry k ≠ disk.entry k → ∃ real token, IsTarget sys deps disk params real token ∧
    (k = disk.tree.key (challengeFile real token) ∧ IsPlain (disk.entry k) ∧ IsPlain (reply.disk.entry k) ∧
        disk.tree.IsUnlinked (challengeFile real token) ∧ reply.disk.tree.IsUnlinked (challengeFile real token) ∨
      stringOf (params.field (text "action")) = some (text "publish") ∧
        (k = disk.tree.key (wellKnown real) ∨ k = disk.tree.key (challengeDir real)) ∧
        disk.entry k = none ∧ reply.disk.entry k = some .dir)
  published : ∀ path, reply.outcome = .published path → ∃ real token thumbprint,
    IsTarget sys deps disk params real token ∧ path = render (challengeFile real token) ∧
      isThumbprint thumbprint = true ∧
      stringOf (params.field (text "keyAuthorization")) = some (token.text ++ dot :: thumbprint) ∧
      reply.disk.entry (disk.tree.key (challengeFile real token)) =
        some (.file (Utf8.encode (token.text ++ dot :: thumbprint)))
  unopened : reply.outcome.ok = false → reply.opened = false →
    ∀ k content, disk.entry k = some (.file content) → reply.disk.entry k = some (.file content)

def IsLink {ρ ν : Type*} : Option (Node ρ ν) → Prop
  | some (.link _ _) => True
  | _ => False

/-- A removal gets to a file through a link in the place of `.well-known` or `acme-challenge`. -/
def Diverted : Prop :=
  ∃ request real, parseRequest sys params = .ok request ∧ request.action = .remove ∧
    locateWebroot sys deps disk request.webroot = .ok real ∧
    (IsLink (disk.tree.lookup (wellKnown real)) ∨ IsLink (disk.tree.lookup (challengeDir real))) ∧
    disk.lstat sys.maxLinks (challengeFile real request.token) = some .file ∧
    sys.fault .lstatSync (challengeFile real request.token) = none ∧
    sys.fault .unlinkSync (challengeFile real request.token) = none

end Spec

/-! ## Requests -/

section Requests

variable {sys : System} {deps : Http01Deps} {disk : Volume} {params : Json}

/-- What a key authorization is. -/
theorem exists_thumbprint {token keyAuthorization : Str} (h : isValidKeyAuthorization token keyAuthorization) :
    ∃ thumbprint, keyAuthorization = token ++ dot :: thumbprint ∧ isThumbprint thumbprint := by
  simp only [isValidKeyAuthorization, Bool.and_eq_true, isPrefixOf_iff_prefix] at h
  obtain ⟨⟨-, thumbprint, rfl⟩, hthumb⟩ := h
  rw [drop_left] at hthumb
  exact ⟨thumbprint, by simp, hthumb⟩

theorem parseToken_eq_ok {token : Token} (h : parseToken params = .ok token) :
    stringOf (params.field (text "token")) = some token.text := by
  unfold parseToken at h
  split at h
  · rename_i s hs
    split at h
    · cases h
      exact hs
    · cases h
  · cases h

theorem parseAction_publish {token : Token} {action : Action} (h : parseAction params token true = .ok action) :
    ∃ keyAuthorization, action = .publish keyAuthorization ∧
      stringOf (params.field (text "keyAuthorization")) = some keyAuthorization ∧
      isValidKeyAuthorization token.text keyAuthorization := by
  simp only [parseAction, if_true] at h
  split at h
  · rename_i k hk
    split at h
    · cases h
      exact ⟨k, rfl, hk, ‹_›⟩
    · cases h
  · cases h

theorem parseAction_remove {token : Token} {action : Action} (h : parseAction params token false = .ok action) :
    action = .remove := by
  simpa [parseAction, eq_comm] using h

theorem parseRequest_eq_ok {request : Request} (h : parseRequest sys params = .ok request) :
    stringOf (params.field (text "token")) = some request.token.text ∧
      normalizeWebroot sys.workingDir (params.field (text "webroot")) = some request.webroot ∧
      match request.action with
      | .publish keyAuthorization => stringOf (params.field (text "action")) = some (text "publish") ∧
          stringOf (params.field (text "keyAuthorization")) = some keyAuthorization ∧
          isValidKeyAuthorization request.token.text keyAuthorization
      | .remove => stringOf (params.field (text "action")) = some (text "remove") := by
  unfold parseRequest at h
  dsimp only at h
  split at h
  · cases h
  · rename_i haction
    cases htoken : parseToken params with
    | error e => simp [htoken, bind, Except.bind] at h
    | ok token =>
      cases haction' : parseAction params token
          (stringOf (params.field (text "action")) = some (text "publish")) with
      | error e => simp [htoken, haction', bind, Except.bind] at h
      | ok action =>
        cases hwebroot : normalizeWebroot sys.workingDir (params.field (text "webroot")) with
        | none => simp [htoken, haction', hwebroot, bind, Except.bind] at h
        | some webroot =>
          have hrequest : request = ⟨action, token, webroot⟩ := by
            simpa [htoken, haction', hwebroot, bind, Except.bind, pure, Except.pure, eq_comm] using h
          subst hrequest
          refine ⟨parseToken_eq_ok htoken, rfl, ?_⟩
          by_cases hpublish : stringOf (params.field (text "action")) = some (text "publish")
          · simp only [hpublish] at haction'
            obtain ⟨k, rfl, hk, hvalid⟩ := parseAction_publish haction'
            exact ⟨hpublish, hk, hvalid⟩
          · simp only [hpublish] at haction'
            obtain rfl := parseAction_remove haction'
            by_contra hremove
            exact haction ⟨hpublish, hremove⟩

/-- The text of a path, cut at each separator. -/
theorem render_eq_spell (p : AbsPath .linux) :
    render p = Segments.spell slash ([] :: if p.names = [] then [[]] else p.names.map Name.text) := by
  have hroot : p.root.segments = [[]] := by
    obtain ⟨-, h⟩ | ⟨h, -⟩ := (device_segments p.root).2
    · exact h
    · cases h
  unfold render segments
  rw [hroot]
  split <;> rfl

theorem text_injective : Function.Injective (Name.text : Name .linux → Str) := by
  rintro ⟨s, _⟩ ⟨s', _⟩ rfl
  rfl

/-- A text that is below another one as texts go is below it as paths go. -/
theorem prefix_of_isUnderAllowedRoot {w : WorkingDir .linux} {normalized : AbsPath .linux} {roots : List Str}
    (h : isUnderAllowedRoot w normalized roots) :
    ∃ root ∈ roots, (resolve w root).names <+: normalized.names := by
  obtain ⟨root, hroot, hunder⟩ := any_eq_true.mp h
  refine ⟨root, hroot, ?_⟩
  have hclean : ∀ p : AbsPath .linux, Segments.Clean (isPathSeparator .linux)
      ([] :: if p.names = [] then [[]] else p.names.map Name.text) := by
    intro p x hx
    rcases mem_cons.mp hx with rfl | hx
    · simp
    · split at hx
      · simp [mem_singleton.mp hx]
      · obtain ⟨n, -, rfl⟩ := mem_map.mp hx
        exact (name_spec n).2
  simp only [Bool.or_eq_true, decide_eq_true_eq, isPrefixOf_iff_prefix, render_eq_spell] at hunder
  have hprefix := (Segments.spell_within_iff (isPathSeparator_slash .linux) (cons_ne_nil _ _)
    (cons_ne_nil _ _) (hclean (resolve w root)) (hclean normalized)).mp hunder
  have htexts := (cons_prefix_cons.mp hprefix).2
  cases hnames : (resolve w root).names with
  | nil => exact nil_prefix
  | cons n ns =>
    rw [hnames, if_neg (cons_ne_nil _ _)] at htexts
    split at htexts
    · have hempty := (cons_prefix_cons.mp htexts).1
      exact absurd hempty (name_spec n).1
    · obtain ⟨l, hl, heq⟩ := prefix_map_iff.mp htexts
      rw [map_injective_iff.mpr text_injective heq]
      exact hl

theorem call_eq_ok {α : Type} {call : Call} {p : AbsPath .linux} {result : Except Errno α} {a : α}
    (h : sys.call call p result = .ok a) : result = .ok a := by
  unfold System.call at h
  split at h
  · cases h
  · exact h

/-- The real path is a directory under a root. -/
theorem locateWebroot_eq_ok {webroot real : AbsPath .linux} (h : locateWebroot sys deps disk webroot = .ok real) :
    disk.tree.resolve sys.maxLinks webroot = some real ∧ disk.tree.lookup real = some .dir ∧
      ∃ root ∈ allowedRoots sys deps, (resolve sys.workingDir root).names <+: real.names := by
  unfold locateWebroot at h
  split at h
  · cases h
  · split at h
    · cases h
    · cases h
    · split at h
      · cases h
      · rename_i real' hreal
        have hresolve : disk.tree.resolve sys.maxLinks webroot = some real' := by
          have hpath := call_eq_ok hreal
          unfold Disk.realpath at hpath
          split at hpath
          · cases hpath
            assumption
          · cases hpath
        split at h
        · cases h
        · rename_i hunder
          split at h
          · cases h
          · rename_i hstat
            obtain rfl := ok.inj h
            have hdir := call_eq_ok hstat
            rw [Disk.stat, resolve_of_isReal _ (isReal_resolve hresolve)] at hdir
            refine ⟨hresolve, ?_, prefix_of_isUnderAllowedRoot (by simpa using hunder)⟩
            cases hlookup : disk.tree.lookup real' with
            | none => simp [hlookup] at hdir
            | some v => simpa [hlookup] using hdir
          · cases h

theorem ascii_of_isTokenUnit {c : UInt16} (h : isTokenUnit c) : c.toNat < 0x80 := by
  simp only [isTokenUnit, Bool.or_eq_true, Bool.and_eq_true, decide_eq_true_eq] at h
  obtain (((h | h) | h) | rfl) | rfl := h
  · exact Nat.lt_of_le_of_lt h.2 (by decide)
  · exact Nat.lt_of_le_of_lt h.2 (by decide)
  · exact Nat.lt_of_le_of_lt h.2 (by decide)
  · decide
  · decide

theorem ascii_keyAuthorization (token : Token) {thumbprint : Str} (hthumb : isThumbprint thumbprint) :
    ∀ u ∈ token.text ++ dot :: thumbprint, u.toNat < 0x80 := by
  have htoken := token.valid
  simp only [isValidToken, isThumbprint, Bool.and_eq_true, all_eq_true] at htoken hthumb
  intro u hu
  rcases mem_append.mp hu with hu | hu
  · exact ascii_of_isTokenUnit (htoken.2 u hu)
  · rcases mem_cons.mp hu with rfl | hu
    · decide
    · exact ascii_of_isTokenUnit (hthumb.2 u hu)

end Requests

/-! ## Publication -/

section Publish

variable {sys : System} {disk : Volume}

/-- One directory below another, with the names. -/
def below (p : AbsPath .linux) : List (Name .linux) → List (AbsPath .linux)
  | [] => []
  | n :: ns => p.child n :: below (p.child n) ns

/-- Directories are made where there was nothing, and nothing else changes. -/
structure Made (disk disk' : Volume) (dirs : List (AbsPath .linux)) : Prop where
  key : disk'.tree.key = disk.tree.key
  entry : ∀ k, disk'.entry k = disk.entry k ∨
    (∃ p ∈ dirs, k = disk.tree.key p) ∧ disk.entry k = none ∧ disk'.entry k = some .dir

theorem Made.refl (disk : Volume) (dirs : List (AbsPath .linux)) : Made disk disk dirs := ⟨rfl, fun _ => .inl rfl⟩

variable {p : AbsPath .linux} {dirs : List (AbsPath .linux)}

theorem Made.cons {disk' : Volume} (h : Made disk disk' dirs) :
    Made disk disk' (p :: dirs) where
  key := h.key
  entry k := (h.entry k).imp_right fun ⟨⟨q, hq, hk⟩, h⟩ => ⟨⟨q, mem_cons_of_mem _ hq, hk⟩, h⟩

/-- A directory is made first. -/
theorem Made.mkdir {disk' disk'' : Volume}
    (hkey : disk'.tree.key = disk.tree.key) (hnone : disk.entry (disk.tree.key p) = none)
    (hentry : ∀ k, disk'.entry k = if k = disk.tree.key p then some .dir else disk.entry k)
    (h : Made disk' disk'' dirs) : Made disk disk'' (p :: dirs) where
  key := h.key.trans hkey
  entry k := by
    have hstep := hentry k
    split at hstep
    · rename_i heq
      refine .inr ⟨⟨p, mem_cons_self, heq⟩, heq ▸ hnone, ?_⟩
      obtain hsame | ⟨-, hmissing, -⟩ := h.entry k
      · exact hsame.trans hstep
      · cases hmissing.symm.trans hstep
    · rw [← hstep]
      exact (h.entry k).imp_right fun ⟨⟨q, hq, hk⟩, h⟩ => ⟨⟨q, mem_cons_of_mem _ hq, hkey ▸ hk⟩, h⟩

theorem Made.lookup_dir {disk' : Volume} (h : Made disk disk' dirs)
    (hdir : disk.tree.lookup p = some .dir) : disk'.tree.lookup p = some .dir := by
  have hentry := entry_eq_dir_iff.mpr hdir
  rw [← entry_eq_dir_iff, h.key]
  obtain hsame | ⟨-, hnone, -⟩ := h.entry (disk.tree.key p)
  · exact hsame.trans hentry
  · cases hnone.symm.trans hentry

/-- Below a directory each name is made, or is there; the induction goes down the names. -/
theorem ensureDirs_below (sys : System) (names : List (Name .linux)) (hdir : disk.tree.lookup p = some .dir) :
    Made disk (ensureDirs sys disk (below p names)).2 (below p names) ∧
      ((ensureDirs sys disk (below p names)).1 = none →
        ∀ q ∈ below p names, (ensureDirs sys disk (below p names)).2.tree.lookup q = some .dir) := by
  induction names generalizing disk p with
  | nil => exact ⟨Made.refl disk _, fun _ q hq => absurd hq not_mem_nil⟩
  | cons n names ih =>
    simp only [below, ensureDirs]
    split
    · exact ⟨Made.refl disk _, fun hok => by cases hok⟩
    · rename_i hlstat
      split
      · exact ⟨Made.refl disk _, fun hok => by cases hok⟩
      · rename_i disk' hmkdir
        obtain ⟨q, m, hlocate, hmissing, hkey, hentry⟩ := entry_mkdir (call_eq_ok hmkdir)
        obtain ⟨rfl, rfl⟩ := Prod.mk.inj (Option.some.inj ((locate_child hdir).symm.trans hlocate))
        have hmade : disk'.tree.lookup (p.child n) = some .dir := by
          rw [← entry_eq_dir_iff, hentry, hkey, if_pos rfl]
        obtain ⟨hrest, hdirs⟩ := ih hmade
        refine ⟨Made.mkdir hkey (entry_eq_none_iff.mpr hmissing) hentry hrest, fun hok q hq => ?_⟩
        rcases mem_cons.mp hq with rfl | hq
        · exact hrest.lookup_dir hmade
        · exact hdirs hok q hq
    · rename_i hlstat
      have hplain : disk.tree.lookup (p.child n) = some .dir := by
        have hsome := ok.inj (call_eq_ok hlstat)
        rw [lstat, if_neg (by simp [Place.child]), locate_child hdir] at hsome
        exact hsome
      obtain ⟨hrest, hdirs⟩ := ih hplain
      refine ⟨hrest.cons, fun hok q hq => ?_⟩
      rcases mem_cons.mp hq with rfl | hq
      · exact hrest.lookup_dir hplain
      · exact hdirs hok q hq
    · exact ⟨Made.refl disk _, fun hok => by cases hok⟩

/-- The two directories of a challenge. -/
theorem ensureDirs_challenge (sys : System) {real : AbsPath .linux} (hdir : disk.tree.lookup real = some .dir) :
    Made disk (ensureDirs sys disk [wellKnown real, challengeDir real]).2 [wellKnown real, challengeDir real] ∧
      ((ensureDirs sys disk [wellKnown real, challengeDir real]).1 = none →
        (ensureDirs sys disk [wellKnown real, challengeDir real]).2.tree.lookup (challengeDir real) = some .dir) := by
  have h := ensureDirs_below sys [⟨text ".well-known", by decide⟩, ⟨text "acme-challenge", by decide⟩] hdir
  exact ⟨h.1, fun hok => h.2 hok (challengeDir real) (mem_cons_of_mem _ mem_cons_self)⟩

/-- What is written goes to the file of the path, and what is published reads like the key authorization. -/
structure Written (disk : Volume) (file : AbsPath .linux) (keyAuthorization : Str) (reply : Reply) : Prop where
  key : reply.disk.tree.key = disk.tree.key
  plain : disk.tree.lookup file = none ∨ disk.tree.lookup file = some .file
  entry : ∃ content, ∀ k, reply.disk.entry k =
    if k = disk.tree.key file then some (.file content) else disk.entry k
  published : ∀ path, reply.outcome = .published path → path = render file ∧
    reply.disk.entry (disk.tree.key file) = some (.file (Utf8.encode keyAuthorization))

theorem failed_outcome (failure : Failure) (path : Str) : failure.outcome sys ≠ .published path := by
  unfold Failure.outcome
  split <;> simp

theorem writeChallenge_cases (sys : System) {n : Name .linux}
    (hdir : disk.tree.lookup p = some .dir) {keyAuthorization : Str} (hascii : ∀ u ∈ keyAuthorization, u.toNat < 0x80) :
    (∃ failure : Failure, writeChallenge sys disk (p.child n) keyAuthorization = ⟨failure.outcome sys, disk, false⟩) ∨
      (writeChallenge sys disk (p.child n) keyAuthorization).opened ∧
        Written disk (p.child n) keyAuthorization (writeChallenge sys disk (p.child n) keyAuthorization) := by
  unfold writeChallenge
  split
  · exact .inl ⟨_, rfl⟩
  · rename_i disk₁ _ hopen
    right
    obtain ⟨q, m, hlocate, rfl, hkey, hplain, hentry⟩ := entry_openTruncated (call_eq_ok hopen)
    obtain ⟨rfl, rfl⟩ := Prod.mk.inj (Option.some.inj ((locate_child hdir).symm.trans hlocate))
    split
    · exact ⟨rfl, hkey, hplain, ⟨[], hentry⟩, fun path h => absurd h (failed_outcome _ _)⟩
    · rename_i hwrite
      have hempty : disk₁.entry (disk.tree.key (p.child n)) = some (.file []) := by rw [hentry, if_pos rfl]
      obtain rfl := ok.inj (call_eq_ok hwrite)
      have hwritten : ∀ k,
          (disk₁.write (disk.tree.key (p.child n)) ((Utf8.encode keyAuthorization).take sys.written)).entry k =
          if k = disk.tree.key (p.child n) then some (.file ((Utf8.encode keyAuthorization).take sys.written))
          else disk.entry k := by
        intro k
        rw [entry_write hempty]
        split
        · rfl
        · rename_i hne
          rw [hentry, if_neg hne]
      split
      · exact ⟨rfl, hkey, hplain, ⟨_, hwritten⟩, fun path h => absurd h (failed_outcome _ _)⟩
      · split
        · exact ⟨rfl, hkey, hplain, ⟨_, hwritten⟩, fun path h => absurd h (failed_outcome _ _)⟩
        · rename_i content hread
          split
          · rename_i hdecode
            have hfile := hwritten (disk.tree.key (p.child n))
            rw [if_pos rfl] at hfile
            have hcontent := readFile_of_entry (p := p.child n) sys.maxLinks
              ((congrArg (fun key => Disk.entry _ (key (p.child n))) hkey).trans hfile)
            obtain rfl := ok.inj (hcontent.symm.trans (call_eq_ok hread))
            refine ⟨rfl, hkey, hplain, ⟨_, hwritten⟩, fun path h => ⟨(Http01Outcome.published.inj h).symm, ?_⟩⟩
            have hall := Utf8.take_encode_of_decode hascii hdecode
            exact hfile.trans (congrArg (fun bytes => some (Entry.file bytes)) hall)
          · exact ⟨rfl, hkey, hplain, ⟨_, hwritten⟩, nofun⟩

end Publish

/-! ## Confinement -/

section Confine

variable {sys : System} {deps : Http01Deps} {disk : Volume} {params : Json}

/-- An answer that came with no change. -/
theorem Confined.unchanged {outcome : Http01Outcome} (h : ∀ path, outcome ≠ .published path) :
    Confined sys deps disk params ⟨outcome, disk, false⟩ where
  touched _ hk := absurd rfl hk
  published path hpath := absurd hpath (h path)
  unopened _ _ _ _ h := h

variable {p : AbsPath .linux}

theorem isPlain_of_lookup (h : disk.tree.lookup p = none ∨ disk.tree.lookup p = some .file) :
    IsPlain (disk.entry (disk.tree.key p)) := by
  rcases h with h | h <;> simp [entry_key, h, Entry.ofNode, IsPlain]

variable {real : AbsPath .linux}

/-- Directories that were made on the way are no links, and no files. -/
theorem Made.confined {disk' : Volume} {token : Token} {outcome : Http01Outcome}
    (h : Made disk disk' [wellKnown real, challengeDir real]) (htarget : IsTarget sys deps disk params real token)
    (haction : stringOf (params.field (text "action")) = some (text "publish"))
    (houtcome : ∀ path, outcome ≠ .published path) : Confined sys deps disk params ⟨outcome, disk', false⟩ where
  touched k hk := by
    obtain ⟨⟨p, hp, rfl⟩, hnone, hdir⟩ := (h.entry k).resolve_left hk
    have hplace : p = wellKnown real ∨ p = challengeDir real := by simpa using hp
    refine ⟨real, token, htarget, .inr ⟨haction, ?_, hnone, hdir⟩⟩
    exact hplace.imp (congrArg _) (congrArg _)
  published path hpath := absurd hpath (houtcome path)
  unopened _ _ k content hk := by
    obtain hsame | ⟨-, hnone, -⟩ := h.entry k
    · exact hsame.trans hk
    · cases hnone.symm.trans hk

/-- The file that is written is the one of the path. -/
theorem Made.written {disk' : Volume} {token : Token} {keyAuthorization thumbprint : Str}
    {reply : Reply} (h : Made disk disk' [wellKnown real, challengeDir real])
    (htarget : IsTarget sys deps disk params real token)
    (haction : stringOf (params.field (text "action")) = some (text "publish"))
    (hkey : stringOf (params.field (text "keyAuthorization")) = some keyAuthorization)
    (hparts : keyAuthorization = token.text ++ dot :: thumbprint) (hthumb : isThumbprint thumbprint)
    (hplace : disk'.tree.lookup (challengeDir real) = some .dir)
    (hwritten : Written disk' (challengeFile real token) keyAuthorization reply) (hopened : reply.opened) :
    Confined sys deps disk params reply := by
  obtain ⟨content, hentry⟩ := hwritten.entry
  have hunlinked : disk'.tree.IsUnlinked (challengeFile real token) := by
    refine (show disk'.tree.IsReal (challengeDir real) from .inl hplace).isUnlinked.child fun root target hlink => ?_
    rcases hwritten.plain with hnone | hfile
    · cases hnone.symm.trans hlink
    · cases hfile.symm.trans hlink
  have hbefore : disk.tree.IsUnlinked (challengeFile real token) := by
    refine isUnlinked_of_entry h.key.symm (fun k root target hlink => ?_) hunlinked
    obtain hsame | ⟨-, hnone, -⟩ := h.entry k
    · exact hsame.trans hlink
    · cases hnone.symm.trans hlink
  have hafter : reply.disk.tree.IsUnlinked (challengeFile real token) := by
    refine isUnlinked_of_entry hwritten.key (fun k root target hlink => ?_) hunlinked
    rw [hentry k] at hlink
    split at hlink
    · cases hlink
    · exact hlink
  rw [h.key] at hentry
  exact
    { touched := fun k hk => by
        by_cases hfile : k = disk.tree.key (challengeFile real token)
        · refine ⟨real, token, htarget, .inl ⟨hfile, ?_, ?_, hbefore, hafter⟩⟩
          · obtain hsame | ⟨-, hnone, -⟩ := h.entry k
            · rw [← hsame, hfile, ← h.key]
              exact isPlain_of_lookup hwritten.plain
            · simp [hnone, IsPlain]
          · simp [hentry, hfile, IsPlain]
        · rw [hentry, if_neg hfile] at hk
          obtain ⟨⟨p, hp, rfl⟩, hnone, hdir⟩ := (h.entry k).resolve_left hk
          have hdirs : p = wellKnown real ∨ p = challengeDir real := by simpa using hp
          refine ⟨real, token, htarget, .inr ⟨haction, ?_, hnone, ?_⟩⟩
          · exact hdirs.imp (congrArg _) (congrArg _)
          · rw [hentry, if_neg hfile]
            exact hdir
      published := fun path hpath => by
        obtain ⟨rfl, hfile⟩ := hwritten.published path hpath
        subst hparts
        exact ⟨real, token, thumbprint, htarget, rfl, hthumb, hkey, h.key ▸ hfile⟩
      unopened := fun _ hclosed => by cases hopened.symm.trans hclosed }

/-- A publication is confined, wherever links are. -/
theorem confined_publish {token : Token} {keyAuthorization thumbprint : Str}
    (htarget : IsTarget sys deps disk params real token) (hdir : disk.tree.lookup real = some .dir)
    (haction : stringOf (params.field (text "action")) = some (text "publish"))
    (hkey : stringOf (params.field (text "keyAuthorization")) = some keyAuthorization)
    (hparts : keyAuthorization = token.text ++ dot :: thumbprint) (hthumb : isThumbprint thumbprint) :
    Confined sys deps disk params (publish sys disk real token keyAuthorization) := by
  have hascii : ∀ u ∈ keyAuthorization, u.toNat < 0x80 := hparts ▸ ascii_keyAuthorization token hthumb
  obtain ⟨hmade, hdirs⟩ := ensureDirs_challenge sys hdir
  unfold publish
  split
  · rename_i failure disk' heq
    rw [heq] at hmade
    exact hmade.confined htarget haction fun path => failed_outcome failure path
  · rename_i disk' heq
    rw [heq] at hmade hdirs
    have hplace : disk'.tree.lookup (challengeDir real) = some .dir := hdirs rfl
    obtain ⟨failure, hfailed⟩ | ⟨hopened, hwritten⟩ := writeChallenge_cases sys (n := token.name) hplace hascii
    · rw [challengeFile, hfailed]
      exact hmade.confined htarget haction fun path => failed_outcome failure path
    · exact hmade.written htarget haction hkey hparts hthumb hplace hwritten hopened

theorem call_fault {α : Type} {call : Call} {result : Except Errno α} {a : α}
    (h : sys.call call p result = .ok a) : sys.fault call p = none := by
  unfold System.call at h
  split at h
  · cases h
  · assumption

theorem call_of_fault {α : Type} {call : Call} (h : sys.fault call p = none)
    (result : Except Errno α) : sys.call call p result = result := by
  rw [System.call, h]

/-- Where `lstat` finds a file, it is in the directory that the path leads to. -/
theorem lstat_eq_file {n : Name .linux} (h : disk.lstat sys.maxLinks (p.child n) = some .file) :
    ∃ q, disk.tree.locate sys.maxLinks (p.child n) = some (q, n) ∧ disk.tree.lookup (q.child n) = some .file := by
  rw [lstat, if_neg (by simp [Place.child]), Option.bind_eq_some_iff] at h
  obtain ⟨⟨q, m⟩, hlocate, hfile⟩ := h
  obtain ⟨-, -, rfl⟩ := locate_child_eq_some_iff.mp hlocate
  exact ⟨q, hlocate, hfile⟩

theorem isLink_of_lookup {root : Option (Device .linux)}
    {target : List (Step (Name .linux))} (h : disk.tree.lookup p = some (.link root target)) : IsLink (disk.tree.lookup p) := by
  simp [h, IsLink]

theorem exists_of_isLink (h : IsLink (disk.tree.lookup p)) :
    ∃ root target, disk.tree.lookup p = some (.link root target) := by
  unfold IsLink at h
  split at h
  · exact ⟨_, _, ‹_›⟩
  · exact h.elim

/-- A removal is confined when neither directory is a link: the path leads where it says. -/
theorem confined_remove {token : Token} (htarget : IsTarget sys deps disk params real token)
    (hdir : disk.tree.lookup real = some .dir)
    (hlinks : disk.lstat sys.maxLinks (challengeFile real token) = some .file →
      sys.fault .lstatSync (challengeFile real token) = none → sys.fault .unlinkSync (challengeFile real token) = none →
      ¬ IsLink (disk.tree.lookup (wellKnown real)) ∧ ¬ IsLink (disk.tree.lookup (challengeDir real))) :
    Confined sys deps disk params (remove sys disk (challengeFile real token)) := by
  unfold remove
  split
  · exact Confined.unchanged fun path => failed_outcome _ _
  · rename_i hlstat
    split
    · exact Confined.unchanged fun path => failed_outcome _ _
    · rename_i disk' hunlink
      have hfile := ok.inj (call_eq_ok hlstat)
      obtain ⟨hwell, hchallenge⟩ := hlinks hfile (call_fault hlstat) (call_fault hunlink)
      have hplace : disk.tree.IsUnlinked (challengeDir real) := by
        have hreal : disk.tree.IsReal real := .inl hdir
        have hwellplace : disk.tree.IsUnlinked (wellKnown real) :=
          hreal.isUnlinked.child fun root target hlink => hwell (isLink_of_lookup hlink)
        exact hwellplace.child fun root target hlink => hchallenge (isLink_of_lookup hlink)
      obtain ⟨q, n, hlocate, hlookup, hkey, hentry⟩ := entry_unlink (call_eq_ok hunlink)
      obtain ⟨hresolve, -, rfl⟩ := locate_child_eq_some_iff.mp hlocate
      obtain rfl := hplace.eq_of_resolve hresolve
      have hbefore : disk.tree.IsUnlinked (challengeFile real token) :=
        (show disk.tree.IsReal (challengeFile real token) from .inr hlookup).isUnlinked
      have hafter : disk'.tree.IsUnlinked (challengeFile real token) := by
        refine isUnlinked_of_entry hkey (fun k root target hlink => ?_) hbefore
        rw [hentry k] at hlink
        split at hlink
        · cases hlink
        · exact hlink
      exact
        { touched := fun k hk => by
            by_cases heq : k = disk.tree.key (challengeFile real token)
            · refine ⟨real, token, htarget, .inl ⟨heq, ?_, ?_, hbefore, hafter⟩⟩
              · rw [heq]
                exact isPlain_of_lookup (.inr hlookup)
              · rw [show disk'.entry k = none from (hentry k).trans (if_pos heq)]
                trivial
            · exact absurd ((hentry k).trans (if_neg heq)) hk
          published := nofun
          unopened := fun h => by cases h }
  · exact Confined.unchanged fun path h => by cases h

/-- The primitive touches its one file exactly when a removal is not diverted. -/
theorem confined_iff_not_diverted (sys : System) (deps : Http01Deps) (disk : Volume) (params : Json) :
    Confined sys deps disk params (handleHttp01 sys deps disk params) ↔ ¬ Diverted sys deps disk params := by
  constructor
  · rintro hconfined ⟨request, real, hparse, haction, hlocate, hlinks, hlstat, hfault, hfault'⟩
    obtain ⟨htoken, hwebroot, hrequest⟩ := parseRequest_eq_ok hparse
    rw [haction] at hrequest
    obtain ⟨hresolve, -, -⟩ := locateWebroot_eq_ok hlocate
    obtain ⟨q, hplace, hfile⟩ := lstat_eq_file hlstat
    have hunlink : disk.unlink sys.maxLinks (challengeFile real request.token) =
        .ok { disk with tree := disk.tree.erase (q.child request.token.name) } := by
      simp [unlink, challengeFile, hplace, hfile]
    have hreply : handleHttp01 sys deps disk params = ⟨.removed (render (challengeFile real request.token)),
        { disk with tree := disk.tree.erase (q.child request.token.name) }, false⟩ := by
      simp [handleHttp01, hparse, hlocate, haction, remove, call_of_fault hfault, call_of_fault hfault', hlstat,
        hunlink]
    rw [hreply] at hconfined
    have hgone : (Disk.entry ({ disk with tree := disk.tree.erase (q.child request.token.name) } : Volume)
        (disk.tree.key (q.child request.token.name))) ≠ disk.entry (disk.tree.key (q.child request.token.name)) := by
      rw [entry, get_erase hfile, if_pos rfl, entry_key, hfile]
      simp
    -- The target is the one of the request, and there is a link on the way to it.
    obtain ⟨real', token', htarget, ⟨-, -, -, hunlinked, -⟩ | ⟨hpublish, -⟩⟩ := hconfined.touched _ hgone
    · obtain ⟨webroot, hwebroot', hresolve'⟩ := htarget.webroot
      cases hwebroot.symm.trans hwebroot'
      cases hresolve.symm.trans hresolve'
      rcases hlinks with hlink | hlink
      · obtain ⟨root, target, hlookup⟩ := exists_of_isLink hlink
        refine hunlinked (wellKnown real).names ?_ root target hlookup
        exact (prefix_append _ _).trans (prefix_append _ _)
      · obtain ⟨root, target, hlookup⟩ := exists_of_isLink hlink
        exact hunlinked (challengeDir real).names (prefix_append _ _) root target hlookup
    · exact absurd (hrequest.symm.trans hpublish) (by decide)
  · intro hdiverted
    unfold handleHttp01
    split
    · exact Confined.unchanged fun path => failed_outcome _ _
    · rename_i request hparse
      obtain ⟨htoken, hwebroot, hrequest⟩ := parseRequest_eq_ok hparse
      split
      · exact Confined.unchanged fun path => failed_outcome _ _
      · rename_i real hlocate
        obtain ⟨hresolve, hdir, hallowed⟩ := locateWebroot_eq_ok hlocate
        have htarget : IsTarget sys deps disk params real request.token := ⟨htoken, ⟨_, hwebroot, hresolve⟩, hallowed⟩
        split
        · rename_i haction
          refine confined_remove htarget hdir fun hlstat hfault hfault' => ?_
          by_contra hlinks
          refine hdiverted ⟨request, real, hparse, haction, hlocate, ?_, hlstat, hfault, hfault'⟩
          by_contra hnone
          exact hlinks (not_or.mp hnone)
        · rename_i keyAuthorization haction
          rw [haction] at hrequest
          obtain ⟨hpublish, hkey, hvalid⟩ := hrequest
          obtain ⟨thumbprint, hparts, hthumb⟩ := exists_thumbprint hvalid
          exact confined_publish htarget hdir hpublish hkey hparts hthumb

end Confine

/-! ## A directory that is a link -/

def sampleSystem : System where
  workingDir := ⟨⟨⟨[[]], isDevice_linux⟩, []⟩, fun _ => []⟩
  maxLinks := 40
  fault := fun _ _ => none
  written := 1000
  describe := fun _ => []

def sampleDeps : Http01Deps := ⟨[text "/var"], text "/etc/roots", none⟩

def samplePath (s : Str) : AbsPath .linux := resolve sampleSystem.workingDir s

def sampleKey (s : Str) : Place (List Str) Str :=
  ⟨(samplePath s).root.segments, (samplePath s).names.map Name.text⟩

/-- `/var/.well-known/acme-challenge` leads to `/keys`. -/
def sampleNodes : OrderedMap (Place (List Str) Str) (Node (Device .linux) (Name .linux)) :=
  (((((OrderedMap.empty.set (sampleKey (text "/")) .dir).set (sampleKey (text "/var")) .dir).set
    (sampleKey (text "/var/.well-known")) .dir).set (sampleKey (text "/var/.well-known/acme-challenge"))
      (.link (some ⟨[[]], isDevice_linux⟩) (toSteps .linux (text "keys")))).set (sampleKey (text "/keys")) .dir).set
        (sampleKey (text "/keys/0123456789abcdef")) .file

def sampleDisk : Volume where
  tree := ofNodes Device.segments Name.text sampleNodes (by decide)
  content := fun _ => [7]

def removal : Json :=
  .obj [(text "action", .str (text "remove")), (text "webroot", .str (text "/var")),
    (text "token", .str (text "0123456789abcdef"))]

/-- A file is removed from the directory that the link leads to. -/
theorem not_confined_removal : ¬ Confined sampleSystem sampleDeps sampleDisk removal
      (handleHttp01 sampleSystem sampleDeps sampleDisk removal) := by
  intro h
  have hgone : (handleHttp01 sampleSystem sampleDeps sampleDisk removal).disk.entry
      (sampleKey (text "/keys/0123456789abcdef")) ≠ sampleDisk.entry (sampleKey (text "/keys/0123456789abcdef")) := by
    decide
  have hfile : sampleDisk.entry (sampleKey (text "/keys/0123456789abcdef")) = some (.file [7]) := by decide
  obtain ⟨real, token, -, ⟨heq, -⟩ | ⟨-, -, hnone, -⟩⟩ := h.touched _ hgone
  · have hlength := congrArg (fun k : Place (List Str) Str => k.names.length) heq
    have hkeys : (sampleKey (text "/keys/0123456789abcdef")).names.length = 2 := by decide
    simp [hkeys, challengeFile, challengeDir, wellKnown, key, Place.child] at hlength
  · cases hnone.symm.trans hfile

end Acme
