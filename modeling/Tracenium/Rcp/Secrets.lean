-- SUMMARY: Whether a policy can open the agent's own data to a remote file session.
import Tracenium.Rcp.Confinement

/-!
The policy's part of the jail is sanitized twice, when the document is validated and when the jail is built, and has no
deny exceptions.
-/

open Utf16 Segments

namespace Rcp

/-! ## The policy -/

variable {platform : Platform} (host : Host platform) (fs : FileSystem platform)

section Spelling

variable {host fs}

end Spelling

/-! ## The agent's data -/

def Reaches (raw : Str) (p : AbsPath platform) : Prop :=
  fs.Names host.maxLinks (resolve host.workingDir raw) p

/-- The deny paths of a jail but for the agent's data. -/
def otherDenyPaths (config : PathJailConfig) : List Str :=
  (rawDenyPaths host config).drop (agentDataDirs host).length

/-- What the rules of the jail ask of a path, but for the agent's data. -/
structure Permitted (config : PathJailConfig) (s : Str) (real : AbsPath platform) : Prop where
  nonempty : trim s ≠ []
  noNul : 0 ∉ trim s
  short : (trim s).length ≤ JAIL_PATH_MAXLEN
  notDenied : (∃ raw ∈ otherDenyPaths host config, Under host (tryReal host fs raw) real) →
    ∃ raw ∈ rawDenyExceptions host config, Under host (tryReal host fs raw) real
  components : ∀ segment ∈ segmentsOf (render real), host.casing.lower segment ∉ DENIED_SEGMENTS
  extension : host.casing.lower (extname real) ∉ denyExtensions host config
  inRoot : ∃ raw ∈ rawRoots host config, Under host (tryReal host fs raw) real

end Rcp
