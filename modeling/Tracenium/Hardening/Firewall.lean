-- SUMMARY: The commands that enable a host's firewall, and the layouts of sshd that stay reachable.
import Tracenium.Hardening.SshdDropin
import Tracenium.Lib.Numerals

/-!
`remediateFirewallEnable` of `privsvc/linux/src/pmp-remediation.ts`. The handler allows the ports of the `port` lines
that `sshd -T` prints, and 22 where it finds none. What sshd listens on is in the `listenaddress` lines as well.
-/

open Utf16 Json List Bool UInt16

namespace Hardening.Firewall

open Ipc

/-! ## The ports of sshd -/

/-- `/^\s*port\s+(\d{1,5})\s*$/i`, and the number of the match. -/
def portLine (line : Str) : Option Nat :=
  let t := line.dropWhile isSpace
  let rest := t.drop 4
  let number := rest.dropWhile isSpace
  let digits := number.takeWhile isDigit
  if asciiLibrary.lower (t.take 4) = text "port" ∧ rest.takeWhile isSpace ≠ [] ∧ digits ≠ [] ∧
      digits.length ≤ 5 ∧ (number.dropWhile isDigit).all isSpace then
    some (Numerals.worth digits)
  else none

def addPort (ports : List Nat) (line : Str) : List Nat :=
  match portLine line with
  | none => ports
  | some n => if 1 ≤ n ∧ n ≤ 65535 ∧ !ports.contains n then ports ++ [n] else ports

def sshPortsFromSshdT (rendered : Str) : List Nat :=
  let ports := (lines rendered).foldl addPort []
  if ports.isEmpty then [22] else ports

/-! ## The commands -/

structure UfwStep where
  bin : Str
  args : List Str
  change : Option Str
  deriving DecidableEq

def allowStep (port : Nat) : UfwStep :=
  ⟨text "/usr/sbin/ufw",
    [text "allow", decimal port ++ text "/tcp", text "comment", text "Tracenium: keep SSH reachable"],
    some (text "ufw-allow-" ++ decimal port ++ text "/tcp")⟩

def enableStep : UfwStep := ⟨text "/usr/sbin/ufw", [text "--force", text "enable"], some (text "ufw-enabled")⟩

def planUfwEnable (sshdActive : Bool) (sshdRendered : Str) : List UfwStep :=
  (if sshdActive then (sshPortsFromSshdT sshdRendered).map allowStep else []) ++ [enableStep]

structure CmdResult where
  stdout : Str
  stderr : Str
  code : Option Int

def CmdResult.ok (r : CmdResult) : Bool := r.code == some 0

def excerpt (s : Str) : Str := if s.length ≤ 1024 then s else s.take 1024 ++ 0x2026 :: text "[truncated]"

structure RemediateOutcome where
  exitCode : Nat
  stderrExcerpt : Option Str
  requiresReboot : Bool
  changesApplied : List Str

structure Run where
  outcome : RemediateOutcome
  ran : List (UfwStep × CmdResult)

/-- The loop over the steps, where `ufw i` is the result of the `i`-th of them. -/
def runSteps (ufw : Nat → CmdResult) : List UfwStep → List Str → Nat → Run
  | [], changes, _ => ⟨⟨0, none, false, changes⟩, []⟩
  | step :: steps, changes, i =>
    let r := ufw i
    if !r.ok then
      let why := if r.stderr.isEmpty then r.stdout else r.stderr
      ⟨⟨1, some (excerpt ([0x20].intercalate step.args ++ text ": " ++ why)), false, changes⟩, [(step, r)]⟩
    else
      let rest := runSteps ufw steps (changes ++ step.change.toList) (i + 1)
      ⟨rest.outcome, (step, r) :: rest.ran⟩

/-! ## What sshd listens on -/

abbrev Port := { n : Nat // 1 ≤ n ∧ n ≤ 65535 }

/-- A host as it is printed, an IPv6 one in brackets, and a port if it has its own. -/
structure ListenAddress where
  host : Str
  port : Option Port
  clean : newline ∉ host

/-- Any other keyword with its value. -/
structure Setting where
  keyword : Str
  value : Str
  ne_nil : keyword ≠ []
  word : ∀ u ∈ keyword, isSpace u = false
  other : asciiLibrary.lower keyword ≠ text "port"
  clean : newline ∉ value

inductive SshdLine
  | port (p : Port)
  | listenaddress (a : ListenAddress)
  | setting (s : Setting)

def SshdLine.text : SshdLine → Str
  | .port p => Utf16.text "port " ++ decimal p.1
  | .listenaddress a =>
    Utf16.text "listenaddress " ++ a.host ++ (match a.port with
      | some p => colon :: decimal p.1
      | none => [])
  | .setting s => s.keyword ++ 0x20 :: s.value

def SshdLine.port? : SshdLine → Option Nat
  | .port p => some p.1
  | _ => none

/-- The effective configuration. -/
abbrev Sshd := List SshdLine

namespace Sshd

variable (c : Sshd)

/-- `sshd -T`. -/
def render : Str := joinLines (c.map SshdLine.text ++ [[]])

def ports : List Nat := c.filterMap SshdLine.port?

def listenAddresses : List ListenAddress := c.filterMap fun
  | .listenaddress a => some a
  | _ => none

/-- The ports of the `port` lines, and the one of sshd without such a line. -/
def named : List Nat := if c.ports.isEmpty then [22] else c.ports.eraseDups

/-- A `listenaddress` without a port of its own, or none at all, stands for the ports that are named. -/
def accepts : List Nat :=
  if c.listenAddresses.isEmpty then c.named
  else c.listenAddresses.flatMap fun a =>
    match a.port with
    | some p => [p.1]
    | none => c.named

end Sshd

/-! ## A host -/

inductive Family
  | debian
  | rhel
  | suse
  | unknown
  deriving DecidableEq

def Family.name : Family → Str
  | .debian => text "debian"
  | .rhel => text "rhel"
  | .suse => text "suse"
  | .unknown => text "unknown"

/-- A host with its sshd, and what the commands of the handler say there. -/
structure Host where
  family : Family
  sshd : Sshd
  isActive : Str → CmdResult
  sshdT : CmdResult
  ufw : Nat → CmdResult
  enableFirewalld : CmdResult
  prints : sshdT.ok = true → sshdT.stdout = sshd.render

def isSshdActive (h : Host) : Bool := [text "ssh", text "sshd"].any fun unit => (h.isActive unit).ok

def remediateFirewallEnable (h : Host) : Run :=
  match h.family with
  | .debian =>
    let sshdActive := isSshdActive h
    let rendered := if sshdActive && h.sshdT.ok then h.sshdT.stdout else []
    runSteps h.ufw (planUfwEnable sshdActive rendered) [] 0
  | .rhel =>
    let r := h.enableFirewalld
    if r.ok then ⟨⟨0, none, false, [text "firewalld-enabled-and-started"]⟩, []⟩
    else ⟨⟨1, some (excerpt r.stderr), false, []⟩, []⟩
  | family => ⟨⟨1, some (text "firewall remediation not implemented for family=" ++ family.name), false, []⟩, []⟩

/-! ## Being reachable -/

/-- Where sshd is active, the firewall is enabled only if the ports are known and after each of them was allowed, and
never after an `allow` that failed. -/
structure KeepsReachable (h : Host) : Prop where
  allowed : isSshdActive h = true → ∀ before r after,
    (remediateFirewallEnable h).ran = before ++ (enableStep, r) :: after →
      h.sshdT.ok = true ∧ ∀ port ∈ h.sshd.accepts, ∃ r, (allowStep port, r) ∈ before ∧ r.ok = true
  stops : ∀ port r, (allowStep port, r) ∈ (remediateFirewallEnable h).ran → r.ok = false →
    ∀ r', (enableStep, r') ∉ (remediateFirewallEnable h).ran

def Host.planned (h : Host) : List Nat := if h.sshdT.ok then h.sshd.named else [22]

/-! ## What is read of a configuration -/

theorem not_isSpace_of_isDigit {u : UInt16} (h : isDigit u) : isSpace u = false := by
  simp only [isDigit, le_iff_toNat_le] at h
  simp only [isSpace, or_eq_false_iff, and_eq_false_iff, decide_eq_false_iff_not, beq_eq_false_iff_ne,
    ne_eq, UInt16.le_iff_toNat_le, ← UInt16.toNat_inj]
  simp at h ⊢
  omega

theorem decimal_ne_nil (n : Nat) : decimal n ≠ [] := by
  rw [decimal]
  split <;> simp

/-- A `port` line names its port. -/
theorem portLine_port (p : Port) : portLine (SshdLine.port p).text = some p.1 := by
  have hdigits := isDigit_decimal p.1
  have hlen : (decimal p.1).length ≤ 5 := Numerals.length_decimal_le (k := 4) (by have := p.2.2; omega)
  have hspace : ∀ u ∈ decimal p.1, isSpace u = false := fun u hu => not_isSpace_of_isDigit (hdigits u hu)
  have htake : (decimal p.1).takeWhile isDigit = decimal p.1 := takeWhile_eq_self_iff.mpr hdigits
  have hdrop : (decimal p.1).dropWhile isDigit = [] := dropWhile_eq_nil_iff.mpr hdigits
  have hnumber : (decimal p.1).dropWhile isSpace = decimal p.1 := by
    cases hd : decimal p.1 with
    | nil => rfl
    | cons u s => rw [dropWhile_cons_of_neg (by simp [hspace u (by simp [hd])])]
  have hword : ((SshdLine.port p).text).dropWhile isSpace = text "port" ++ 0x20 :: decimal p.1 :=
    dropWhile_cons_of_neg (by decide)
  have hrest : (text "port" ++ 0x20 :: decimal p.1).drop 4 = 0x20 :: decimal p.1 := rfl
  have hfour : (text "port" ++ 0x20 :: decimal p.1).take 4 = text "port" := rfl
  have hone : (0x20 :: decimal p.1).takeWhile isSpace ≠ [] := by
    rw [takeWhile_cons_of_pos (by decide)]
    simp
  have hskip : (0x20 :: decimal p.1).dropWhile isSpace = decimal p.1 := by
    rw [dropWhile_cons_of_pos (by decide), hnumber]
  have hlower : asciiLibrary.lower (text "port") = text "port" := by decide
  simp only [portLine, hword, hrest, hfour, hskip, htake, hdrop, hlower, Numerals.worth_decimal]
  rw [if_pos ⟨trivial, hone, decimal_ne_nil _, hlen, rfl⟩]

theorem not_isSpace_of_all {s : Str} (h : (s.all fun u => !Ipc.isSpace u)) : ∀ u ∈ s, isSpace u = false := by
  simpa using h

theorem not_isSpace_of_lower {s : Str} (h : asciiLibrary.lower s = text "port") : ∀ u ∈ s, isSpace u = false := by
  intro u hu
  have hmem : (if isUpper u then u + 0x20 else u) ∈ text "port" := by
    rw [← h]
    exact mem_map_of_mem hu
  cases hspace : isSpace u with
  | false => rfl
  | true =>
    have hupper : isUpper u = false := by
      cases hup : isUpper u with
      | false => rfl
      | true =>
        simp only [isUpper, isSpace, and_eq_true, or_eq_true, decide_eq_true_eq, beq_iff_eq,
          UInt16.le_iff_toNat_le, ← UInt16.toNat_inj] at hup hspace
        simp at hup hspace
        omega
    rw [hupper] at hmem
    exact absurd hspace (by simp [not_isSpace_of_all (by decide) u hmem])

/-- A line whose first word is another one names no port. -/
theorem portLine_word {keyword rest : Str} (hne : keyword ≠ []) (hword : ∀ u ∈ keyword, isSpace u = false)
    (hother : asciiLibrary.lower keyword ≠ text "port") : portLine (keyword ++ 0x20 :: rest) = none := by
  have hdrop : (keyword ++ 0x20 :: rest).dropWhile isSpace = keyword ++ 0x20 :: rest := by
    cases keyword with
    | nil => exact (hne rfl).elim
    | cons u keyword => exact dropWhile_cons_of_neg (by simp [hword u])
  simp only [portLine, hdrop]
  rw [if_neg]
  rintro ⟨hport, hspace, _⟩
  -- up to the first space there is `keyword`, and the four letters
  have hfour : ((keyword ++ 0x20 :: rest).takeWhile fun u => !Ipc.isSpace u) = (keyword ++ 0x20 :: rest).take 4 := by
    have hletters := not_isSpace_of_lower hport
    generalize keyword ++ 0x20 :: rest = t at hspace hletters ⊢
    have hstop : (t.drop 4).takeWhile (fun u => !Ipc.isSpace u) = [] := by
      cases hdropped : t.drop 4 with
      | nil => rfl
      | cons u s =>
        rw [hdropped] at hspace
        cases hu : isSpace u with
        | true => simp [hu]
        | false => simp [hu] at hspace
    calc t.takeWhile (fun u => !Ipc.isSpace u)
        = (t.take 4 ++ t.drop 4).takeWhile (fun u => !Ipc.isSpace u) := by rw [take_append_drop]
      _ = t.take 4 := by
        rw [takeWhile_append_of_pos (fun u hu => by simp [hletters u hu]), hstop, append_nil]
  have hkey : ((keyword ++ 0x20 :: rest).takeWhile fun u => !Ipc.isSpace u) = keyword := by
    rw [takeWhile_append_of_pos (fun u hu => by simp [hword u hu]), takeWhile_cons_of_neg (by decide), append_nil]
  exact hother (by rw [← hkey, hfour, hport])

theorem portLine_text (line : SshdLine) : portLine line.text = line.port? := by
  cases line with
  | port p => exact portLine_port p
  | listenaddress a =>
    have htext : (SshdLine.listenaddress a).text = text "listenaddress" ++ 0x20 :: (a.host ++ (match a.port with
        | some p => colon :: decimal p.1
        | none => [])) := rfl
    rw [htext]
    exact portLine_word (by decide) (not_isSpace_of_all (by decide)) (by decide)
  | setting s => exact portLine_word s.ne_nil s.word s.other

theorem newline_notMem_decimal (n : Nat) : newline ∉ decimal n := fun h => absurd (isDigit_decimal n _ h) (by decide)

theorem newline_notMem_text (line : SshdLine) : newline ∉ line.text := by
  cases line with
  | port p => simpa [SshdLine.text, newline_notMem_decimal] using (by decide : newline ∉ text "port ")
  | listenaddress a =>
    have hword : newline ∉ text "listenaddress " := by decide
    have hcolon : newline ≠ colon := by decide
    cases hp : a.port <;> simp [SshdLine.text, hp, a.clean, hword, hcolon, newline_notMem_decimal]
  | setting s =>
    have hword : newline ∉ s.keyword := fun h => absurd (s.word _ h) (by decide)
    have hspace : newline ≠ 0x20 := by decide
    simp [SshdLine.text, hword, hspace, s.clean]

theorem addPort_port (ports : List Nat) (p : Port) : addPort ports (SshdLine.port p).text = Firsts.add ports p.1 := by
  by_cases hmem : p.1 ∈ ports <;> simp [addPort, portLine_port, Firsts.add, p.2.1, p.2.2]

theorem foldl_addPort (c : Sshd) (ports : List Nat) :
    (c.map SshdLine.text).foldl addPort ports = c.ports.foldl Firsts.add ports := by
  induction c generalizing ports with
  | nil => rfl
  | cons line c ih =>
    cases line with
    | port p => simp [addPort_port, ih, Sshd.ports, SshdLine.port?]
    | listenaddress a => simpa [addPort, portLine_text, Sshd.ports, SshdLine.port?, filterMap_cons] using ih ports
    | setting s => simpa [addPort, portLine_text, Sshd.ports, SshdLine.port?, filterMap_cons] using ih ports

/-- The ports that are read are those that are named. -/
theorem sshPortsFromSshdT_render (c : Sshd) : sshPortsFromSshdT c.render = c.named := by
  have hlines : lines c.render = c.map SshdLine.text ++ [[]] := by
    refine lines_joinLines (by simp) fun line hline => ?_
    rcases mem_append.mp hline with h | h
    · obtain ⟨l, _, rfl⟩ := mem_map.mp h
      exact newline_notMem_text l
    · simp [mem_singleton.mp h]
  have hports : (c.map SshdLine.text ++ [[]]).foldl addPort [] = c.ports.eraseDups := by
    rw [foldl_append, foldl_addPort, Firsts.foldl_add]
    simp [addPort, (by decide : portLine [] = none)]
  have hempty : c.ports.eraseDups.isEmpty = c.ports.isEmpty := by
    cases c.ports <;> simp [eraseDups_cons]
  simp only [sshPortsFromSshdT, hlines, hports, Sshd.named, hempty]

/-! ## What is run -/

variable {ufw : Nat → CmdResult}

theorem index_succ (i k : Nat) : i + 1 + k = i + (k + 1) := by omega

/-- The steps that succeed are all run. -/
theorem ran_of_ok {steps : List UfwStep} (more : List UfwStep) (changes : List Str) (i : Nat)
    (hok : ∀ k < steps.length, (ufw (i + k)).ok) : ∃ changes', (runSteps ufw (steps ++ more) changes i).ran =
      (steps.mapIdx fun k step => (step, ufw (i + k))) ++ (runSteps ufw more changes' (i + steps.length)).ran := by
  induction steps generalizing changes i with
  | nil => exact ⟨changes, rfl⟩
  | cons step steps ih =>
    have hfirst : (ufw i).ok := hok 0 (by simp)
    have hrest : ∀ k < steps.length, (ufw (i + 1 + k)).ok := fun k hk => by
      simpa [index_succ] using hok (k + 1) (by simpa using hk)
    obtain ⟨changes', hran⟩ := ih (changes ++ step.change.toList) (i + 1) hrest
    refine ⟨changes', ?_⟩
    simp [runSteps, hfirst, hran, index_succ]

/-- Behind a step that fails nothing is run. -/
theorem ran_of_not_ok {steps : List UfwStep} (more : List UfwStep) (changes : List Str) (i k : Nat)
    (hk : k < steps.length) (hfail : (ufw (i + k)).ok = false) :
    ∀ x ∈ (runSteps ufw (steps ++ more) changes i).ran, x.1 ∈ steps := by
  induction steps generalizing changes i k with
  | nil => simp at hk
  | cons step steps ih =>
    cases hfirst : (ufw i).ok with
    | false => simp [runSteps, hfirst]
    | true =>
      cases k with
      | zero => simp [hfirst] at hfail
      | succ k =>
        have hrest := ih (changes ++ step.change.toList) (i + 1) k (by simpa using hk)
          (by simpa [index_succ] using hfail)
        intro x hx
        simp only [List.cons_append, runSteps, hfirst, Bool.not_true, Bool.false_eq_true, if_false,
          List.mem_cons] at hx
        rcases hx with rfl | hx
        · exact List.mem_cons_self
        · exact mem_cons_of_mem _ (hrest x hx)

theorem allowStep_injective : Function.Injective allowStep := by
  intro a b h
  have hargs : decimal a ++ text "/tcp" = decimal b ++ text "/tcp" := by
    simpa [allowStep] using congrArg UfwStep.args h
  exact Numerals.decimal_injective (append_cancel_right hargs)

theorem allowStep_ne_enableStep (port : Nat) : allowStep port ≠ enableStep := by
  intro h
  have hargs : (allowStep port).args.length = enableStep.args.length := by rw [h]
  simp [allowStep, enableStep] at hargs

/-- The `allow` of every planned port, and then `enable`. -/
theorem planUfwEnable_active {h : Host} (hactive : isSshdActive h) :
    planUfwEnable (isSshdActive h) (if isSshdActive h && h.sshdT.ok then h.sshdT.stdout else []) =
      h.planned.map allowStep ++ [enableStep] := by
  have hnone : sshPortsFromSshdT [] = [22] := by decide
  cases hok : h.sshdT.ok with
  | true => simp [planUfwEnable, hactive, hok, h.prints hok, sshPortsFromSshdT_render, Host.planned]
  | false => simp [planUfwEnable, hactive, hok, hnone, Host.planned]

/-- Where every `allow` succeeds, `enable` comes after them. -/
theorem ran_of_allowed {h : Host} (hfamily : h.family = .debian) (hactive : isSshdActive h)
    (hok : ∀ i < h.planned.length, (h.ufw i).ok) : (remediateFirewallEnable h).ran =
      (h.planned.mapIdx fun i port => (allowStep port, h.ufw i)) ++ [(enableStep, h.ufw h.planned.length)] := by
  obtain ⟨changes, hran⟩ := @ran_of_ok h.ufw (h.planned.map allowStep) [enableStep] [] 0 (by simpa using hok)
  have hlast : (runSteps h.ufw [enableStep] changes h.planned.length).ran =
      [(enableStep, h.ufw h.planned.length)] := by
    cases hr : (h.ufw h.planned.length).ok <;> simp [runSteps, hr]
  simp only [remediateFirewallEnable, hfamily, planUfwEnable_active hactive, hran]
  simpa [hlast] using ext_getElem (by simp) (by simp)

/-- Where an `allow` fails, there is no `enable`. -/
theorem enableStep_notMem_ran {h : Host} (hfamily : h.family = .debian) (hactive : isSshdActive h) {i : Nat}
    (hi : i < h.planned.length) (hfail : (h.ufw i).ok = false) (r : CmdResult) :
    (enableStep, r) ∉ (remediateFirewallEnable h).ran := by
  intro hmem
  simp only [remediateFirewallEnable, hfamily, planUfwEnable_active hactive] at hmem
  have hin := ran_of_not_ok [enableStep] [] 0 i (by simpa using hi) (by simpa using hfail) _ hmem
  obtain ⟨port, _, heq⟩ := mem_map.mp hin
  exact allowStep_ne_enableStep port heq

theorem ran_of_ne_debian {h : Host} (hfamily : h.family ≠ .debian) : (remediateFirewallEnable h).ran = [] := by
  cases hf : h.family with
  | debian => exact absurd hf hfamily
  | rhel => cases hr : h.enableFirewalld.ok <;> simp [remediateFirewallEnable, hf, hr]
  | suse => simp [remediateFirewallEnable, hf]
  | unknown => simp [remediateFirewallEnable, hf]

/-- Every port that sshd accepts is a planned one exactly if the ports of the addresses are. -/
theorem accepts_subset_iff (c : Sshd) :
    (∀ port ∈ c.accepts, port ∈ c.named) ↔ ∀ a ∈ c.listenAddresses, ∀ p ∈ a.port, p.1 ∈ c.named := by
  unfold Sshd.accepts
  cases hempty : c.listenAddresses.isEmpty with
  | true =>
    have hnil : c.listenAddresses = [] := isEmpty_iff.mp hempty
    simp [hnil]
  | false =>
    simp only [false_eq_true, if_false, forall_mem_flatMap]
    refine forall₂_congr fun a _ => ?_
    cases a.port <;> simp

/-! ## When SSH stays reachable -/

theorem keepsReachable_of_ne_debian {h : Host} (hfamily : h.family ≠ .debian) : KeepsReachable h where
  allowed _ before r after hran := by simp [ran_of_ne_debian hfamily] at hran
  stops port r hmem := by simp [ran_of_ne_debian hfamily] at hmem

theorem keepsReachable_of_inactive {h : Host} (hfamily : h.family = .debian) (hinactive : isSshdActive h = false) :
    KeepsReachable h where
  allowed hactive := by simp [hinactive] at hactive
  stops port r hmem := by
    have hran : ∀ x ∈ (remediateFirewallEnable h).ran, x.1 = enableStep := by
      cases hr : (h.ufw 0).ok <;> simp [remediateFirewallEnable, hfamily, hinactive, planUfwEnable, runSteps, hr]
    exact absurd (hran _ hmem) (allowStep_ne_enableStep port)

theorem keepsReachable_of_failed {h : Host} (hfamily : h.family = .debian) (hactive : isSshdActive h) {i : Nat}
    (hi : i < h.planned.length) (hfail : (h.ufw i).ok = false) : KeepsReachable h where
  allowed _ before r after hran := by
    have hnot := enableStep_notMem_ran hfamily hactive hi hfail r
    simp [hran] at hnot
  stops _ _ _ _ r' := enableStep_notMem_ran hfamily hactive hi hfail r'

/-- What is run before `enable` is the `allow` of every planned port. -/
theorem mem_before {h : Host} (hfamily : h.family = .debian) (hactive : isSshdActive h)
    (hok : ∀ i < h.planned.length, (h.ufw i).ok) {before after : List (UfwStep × CmdResult)} {r : CmdResult}
    (hran : (remediateFirewallEnable h).ran = before ++ (enableStep, r) :: after) {port : Nat} :
    (∃ r, (allowStep port, r) ∈ before ∧ r.ok) ↔ port ∈ h.planned := by
  rw [ran_of_allowed hfamily hactive hok] at hran
  have hallow : ∀ x ∈ h.planned.mapIdx fun i port => (allowStep port, h.ufw i), x.1 ≠ enableStep := by
    intro x hx
    obtain ⟨i, hi, rfl⟩ := mem_mapIdx.mp hx
    exact allowStep_ne_enableStep _
  -- `enable` is the last step
  have hbefore : before = h.planned.mapIdx fun i port => (allowStep port, h.ufw i) := by
    rcases append_eq_append_iff.mp hran with ⟨rest, hb, hlast⟩ | ⟨rest, ha, hlast⟩
    · cases rest with
      | nil => simpa using hb
      | cons x rest => simp at hlast
    · cases rest with
      | nil => simpa using ha.symm
      | cons x rest =>
        obtain ⟨rfl, _⟩ := cons.inj hlast
        exact (hallow (enableStep, r) (by simp [ha]) rfl).elim
  rw [hbefore]
  constructor
  · rintro ⟨r, hmem, _⟩
    obtain ⟨i, hi, heq⟩ := mem_mapIdx.mp hmem
    rw [← allowStep_injective (Prod.mk.inj heq).1]
    exact getElem_mem hi
  · intro hport
    obtain ⟨i, hi, rfl⟩ := mem_iff_getElem.mp hport
    exact ⟨h.ufw i, mem_mapIdx.mpr ⟨i, hi, rfl⟩, hok i hi⟩

/-- With the planned ports allowed, SSH stays reachable if `sshd -T` says all that it listens on in its `port` lines. -/
theorem keepsReachable_iff_of_allowed {h : Host} (hfamily : h.family = .debian) (hactive : isSshdActive h)
    (hok : ∀ i < h.planned.length, (h.ufw i).ok) :
    KeepsReachable h ↔ h.sshdT.ok ∧ ∀ port ∈ h.sshd.accepts, port ∈ h.sshd.named := by
  have hplanned (hT : h.sshdT.ok) : h.planned = h.sshd.named := by rw [Host.planned, if_pos hT]
  constructor
  · intro hkeeps
    obtain ⟨hT, hports⟩ := hkeeps.allowed hactive _ _ _ (ran_of_allowed hfamily hactive hok)
    refine ⟨hT, fun port hport => ?_⟩
    rw [← hplanned hT]
    exact (mem_before hfamily hactive hok (ran_of_allowed hfamily hactive hok)).mp (hports port hport)
  · rintro ⟨hT, hports⟩
    constructor
    · intro _ before r after hran
      refine ⟨hT, fun port hport => (mem_before hfamily hactive hok hran).mpr ?_⟩
      rw [hplanned hT]
      exact hports port hport
    · intro port r hmem hfail
      rw [ran_of_allowed hfamily hactive hok] at hmem
      rcases mem_append.mp hmem with hmem | hmem
      · obtain ⟨i, hi, heq⟩ := mem_mapIdx.mp hmem
        rw [← (Prod.mk.inj heq).2, hok i hi] at hfail
        simp at hfail
      · exact absurd (Prod.mk.inj (mem_singleton.mp hmem)).1 (allowStep_ne_enableStep port)

/-- SSH stays reachable exactly where nothing is enabled for an active sshd, or where every address that has a port of
its own has one that is named. -/
theorem keepsReachable_iff (h : Host) : KeepsReachable h ↔ h.family ≠ .debian ∨ isSshdActive h = false ∨
      (∃ i < h.planned.length, (h.ufw i).ok = false) ∨
      (h.sshdT.ok = true ∧ ∀ a ∈ h.sshd.listenAddresses, ∀ p ∈ a.port, p.1 ∈ h.sshd.named) := by
  by_cases hfamily : h.family = .debian
  · cases hactive : isSshdActive h with
    | false => simp [keepsReachable_of_inactive hfamily hactive]
    | true =>
      by_cases hfail : ∃ i < h.planned.length, (h.ufw i).ok = false
      · obtain ⟨i, hi, hfail⟩ := hfail
        exact iff_of_true (keepsReachable_of_failed hfamily hactive hi hfail) (.inr (.inr (.inl ⟨i, hi, hfail⟩)))
      · have hok : ∀ i < h.planned.length, (h.ufw i).ok := fun i hi => by
          simpa using fun hno => hfail ⟨i, hi, hno⟩
        rw [keepsReachable_iff_of_allowed hfamily hactive hok, accepts_subset_iff]
        simp [hfamily, hfail]
  · simp [keepsReachable_of_ne_debian hfamily, hfamily]

/-! ## A host that is locked out -/

def done : CmdResult := ⟨[], [], some 0⟩

/-- `ListenAddress 0.0.0.0:2222` without a `Port`. -/
def customAddress : Sshd :=
  [.port ⟨22, by decide⟩, .listenaddress ⟨text "0.0.0.0", some ⟨2222, by decide⟩, by decide⟩]

def customHost : Host where
  family := .debian
  sshd := customAddress
  isActive _ := done
  sshdT := ⟨customAddress.render, [], some 0⟩
  ufw _ := done
  enableFirewalld := done
  prints _ := rfl

/-- Port 22 is allowed and the firewall enabled, and sshd listens on 2222. -/
theorem not_keepsReachable_customHost : ¬ KeepsReachable customHost := by
  intro hkeeps
  have hok : ∀ i < customHost.planned.length, (customHost.ufw i).ok := fun _ _ => rfl
  have hran := ran_of_allowed (h := customHost) rfl (by decide) hok
  obtain ⟨_, hports⟩ := hkeeps.allowed (by decide) _ _ _ hran
  have hport := (mem_before rfl (by decide) hok hran).mp (hports 2222 (by decide))
  exact absurd hport (by decide)

end Hardening.Firewall
