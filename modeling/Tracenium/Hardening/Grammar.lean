-- SUMMARY: The grammars of the values that a hardening request may carry, and POSIX `dirname`.
import Tracenium.Lib.JsonText

/-!
The regular expressions of the validator. The ones that go over words, names or list items are read
by cutting the text at its separator, which no class of the expression contains.
-/

open Utf16 Json List

namespace Hardening

def slash : UInt16 := 0x2F
def dot : UInt16 := 0x2E
def dash : UInt16 := 0x2D
def underscore : UInt16 := 0x5F
def space : UInt16 := 0x20

def isUpper (u : UInt16) : Bool := 0x41 ≤ u && u ≤ 0x5A
def isLower (u : UInt16) : Bool := 0x61 ≤ u && u ≤ 0x7A

/-- `[A-Za-z0-9_]`. -/
def isWord (u : UInt16) : Bool := isUpper u || isLower u || isDigit u || u == underscore

/-- `[A-Za-z0-9_-]`. -/
def isNameUnit (u : UInt16) : Bool := isWord u || u == dash

def oneOf (chars : String) (u : UInt16) : Bool := (text chars).contains u

/-- `^[class]{1,most}$`. -/
def isRun (unit : UInt16 → Bool) (most : Nat) (s : Str) : Bool :=
  !s.isEmpty && s.length ≤ most && s.all unit

/-- `^[class]+$`. -/
def isRuns (unit : UInt16 → Bool) (s : Str) : Bool := !s.isEmpty && s.all unit

/-- `SYSCTL_KEY`. -/
def isSysctlKey (s : Str) : Bool :=
  match s.splitOn dot with
  | first :: rest => isRuns isWord first && !rest.isEmpty && rest.all (isRuns isNameUnit)
  | [] => false

/-- `SAFE_VALUE`. -/
def isSafeValue : Str → Bool := isRun (fun u => isWord u || oneOf ".:/ -" u) 64

/-- `CONF_VALUE`. -/
def isConfValue : Str → Bool := isRun (fun u => isWord u || oneOf ".:/-" u) 64

/-- `SSHD_VALUE`. -/
def isSshdValue : Str → Bool := isRun (fun u => isWord u || oneOf ".:@/+-" u) 64

/-- `SSHD_ALGORITHM`. -/
def isSshdAlgorithm : Str → Bool
  | u :: s => (isLower u || isDigit u) && s.length ≤ 63 &&
      s.all fun v => isLower v || isDigit v || oneOf "_.@+-" v
  | [] => false

def isAuditKey : Str → Bool := isRun isNameUnit 32

/-- `WATCH_RULE`. -/
def isWatchRule (s : Str) : Bool :=
  match s.splitOn space with
  | [w, path, p, perms, k, key] =>
      w == text "-w" && path.head? == some slash &&
        isRuns (fun u => isNameUnit u || u == dot || u == slash) path.tail &&
        p == text "-p" && isRun (oneOf "rwxa") 4 perms && k == text "-k" && isAuditKey key
  | _ => false

def isSyscalls (s : Str) : Bool :=
  let calls := s.splitOn comma
  calls.length ≤ 32 && calls.all (isRuns fun u => isLower u || isDigit u || u == underscore)

/-- `SYSCALL_RULE`. -/
def isSyscallRule (s : Str) : Bool :=
  match s.splitOn space with
  | a :: always :: f :: arch :: flag :: calls :: rest =>
      a == text "-a" && always == text "always,exit" && f == text "-F" &&
        (arch == text "arch=b32" || arch == text "arch=b64") && flag == text "-S" &&
        isSyscalls calls &&
        match rest with
        | [k, key] => k == text "-k" && isAuditKey key
        | [f, auid, f', unset, k, key] =>
            f == text "-F" && auid == text "auid>=1000" && f' == text "-F" &&
              unset == text "auid!=unset" && k == text "-k" && isAuditKey key
        | _ => false
  | _ => false

/-- `includes("..")`. -/
def hasDotDot : Str → Bool
  | u :: v :: s => (u == dot && v == dot) || hasDotDot (v :: s)
  | _ => false

def isAuditRule (s : Str) : Bool := !hasDotDot s && (isWatchRule s || isSyscallRule s)

def isOctal (u : UInt16) : Bool := 0x30 ≤ u && u ≤ 0x37

/-- `/^0?[0-7]{3}$/`. -/
def isMode (s : Str) : Bool :=
  s.all isOctal && (s.length == 3 || (s.length == 4 && s.head? == some 0x30))

/-! ## Forwarding -/

/-- The keys of `sysctlGuard`, in lower case. -/
def isForwarding (k : Str) : Bool :=
  k == text "net.ipv4.ip_forward" ||
    match k.splitOn dot with
    | [net, ip, conf, interface, forwarding] =>
        net == text "net" && (ip == text "ipv4" || ip == text "ipv6") && conf == text "conf" &&
          !interface.isEmpty && forwarding == text "forwarding"
    | _ => false

/-! ## Directories -/

/-- The part of a text before its last slash, unless that is its first character. -/
def beforeSlash (s : Str) : Option Str :=
  match s.reverse.dropWhile (· != slash) with
  | _ :: u :: rest => some (u :: rest).reverse
  | _ => none

/-- `path.posix.dirname`. -/
def dirname (s : Str) : Str :=
  if s.isEmpty then [dot]
  else
    let hasRoot := s.head? == some slash
    -- slashes at the end do not count, a name has to stand before the slash that is cut at
    let trimmed := (s.reverse.dropWhile (· == slash)).reverse
    match beforeSlash trimmed with
    | none => if hasRoot then [slash] else [dot]
    | some parent => if hasRoot && parent.length == 1 then [slash, slash] else parent

theorem beforeSlash_some {s parent : Str} (h : beforeSlash s = some parent) :
    parent ≠ [] ∧ ∃ name, slash ∉ name ∧ s = parent ++ slash :: name := by
  unfold beforeSlash at h
  split at h
  · rename_i c u rest hdrop
    cases h
    have hslash : c = slash := by
      have hhead := head?_dropWhile_not (· != slash) s.reverse
      rw [hdrop, head?_cons] at hhead
      exact bne_eq_false_iff_eq.mp hhead
    refine ⟨reverse_ne_nil_iff.mpr (cons_ne_nil u rest),
      (s.reverse.takeWhile (· != slash)).reverse, fun hmem => ?_, ?_⟩
    · have hne := mem_takeWhile_imp (mem_reverse.mp hmem)
      cases hne
    · have happend := congrArg reverse
        (takeWhile_append_dropWhile (p := (· != slash)) (l := s.reverse))
      rw [hdrop, hslash, reverse_append, reverse_reverse, reverse_cons, append_assoc] at happend
      exact happend.symm
  · cases h

/-- Slashes at the end do not count. -/
theorem trailingSlashes (s : Str) : ∃ n, s = (s.reverse.dropWhile (· == slash)).reverse ++ replicate n slash := by
  refine ⟨(s.reverse.takeWhile (· == slash)).length, ?_⟩
  have htake : s.reverse.takeWhile (· == slash) = replicate (s.reverse.takeWhile (· == slash)).length slash :=
    eq_replicate_iff.mpr ⟨rfl, fun u hu =>
      eq_of_beq (mem_takeWhile_imp (p := (· == slash)) hu)⟩
  have happend := congrArg reverse
    (takeWhile_append_dropWhile (p := (· == slash)) (l := s.reverse))
  rw [reverse_append, reverse_reverse, htake, reverse_replicate] at happend
  exact happend.symm

/-- A text with a directory is that, a slash, a name, and slashes. -/
theorem eq_of_dirname {s path : Str} (h : dirname s = path) (hpath : 1 < path.length)
    (hroot : path ≠ [slash, slash]) :
    ∃ name n, slash ∉ name ∧ name ≠ [] ∧ s = path ++ slash :: name ++ replicate n slash := by
  obtain ⟨n, hs⟩ := trailingSlashes s
  unfold dirname at h
  split at h
  · subst h
    exact absurd hpath (by decide)
  · dsimp only at h
    split at h
    · subst h
      split at hpath <;> exact absurd hpath (by decide)
    · rename_i parent hparent
      split at h
      · exact absurd h.symm hroot
      · subst h
        obtain ⟨-, name, hname, htrimmed⟩ := beforeSlash_some hparent
        refine ⟨name, n, hname, ?_, by rw [← htrimmed]; exact hs⟩
        rintro rfl
        -- what is left does not end with a slash
        have hlast : (s.reverse.dropWhile (· == slash)).head? = some slash := by
          rw [← getLast?_reverse, htrimmed]
          exact getLast?_concat
        have hhead := head?_dropWhile_not (· == slash) s.reverse
        rw [hlast] at hhead
        exact absurd hhead (by decide)

end Hardening
