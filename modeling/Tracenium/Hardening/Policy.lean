-- SUMMARY: The closed lists of what the root service may write, with the guards of their entries.
import Tracenium.Lib.Literals

/-! A guard is the text of why an entry is not written all the same. -/

open Utf16

namespace Hardening

/-- A guard on an entry, where it has one. -/
structure Guarded where
  guard : Option Str

/-- `{}`. -/
def free : Guarded := ⟨none⟩

def guardedBy (reason : String) : Guarded := ⟨some (text reason)⟩

def IP_FORWARD_GUARD : Str :=
  text "turns off IP forwarding — Docker, Kubernetes, VPN gateways and routers stop passing traffic"

/-- A module that may be blocked, unless it has a guard. -/
def KMOD_POLICY : Literal Guarded where
  entries := [
    (text "cramfs", free), (text "freevxfs", free), (text "hfs", free), (text "hfsplus", free),
    (text "jffs2", free), (text "dccp", free), (text "sctp", free), (text "rds", free),
    (text "tipc", free), (text "atm", free), (text "can", free), (text "firewire-core", free),
    (text "squashfs",
      guardedBy "snap packages are squashfs images — blocking it breaks every snap"),
    (text "overlay", guardedBy "Docker, Podman and containerd store images on overlayfs"),
    (text "udf", guardedBy "Azure (and other clouds) deliver provisioning data on UDF media"),
    (text "usb-storage", guardedBy "blocks USB storage devices for every user of the machine")]

/-! ## Configuration files -/

inductive ConfMode
  | dropin
  | inplace
  deriving DecidableEq

inductive ConfStyle
  | eq
  | bare
  | shell
  | systemd
  deriving DecidableEq

inductive ConfEffect
  | immediate
  | service
  | reboot
  deriving DecidableEq

structure ConfPolicy where
  mode : ConfMode
  «section» : Option Str := none
  style : ConfStyle
  effect : ConfEffect
  keys : Literal Guarded
  restart : Option Str := none

def AUDITD_HALT : String :=
  "halts the machine or drops it to single-user when the audit disk fills"

def CONF_FILES : Literal ConfPolicy where
  entries := [
    (text "/etc/systemd/journald.conf", {
      mode := .dropin, «section» := some (text "Journal"), style := .systemd, effect := .service
      restart := some (text "systemd-journald")
      keys := ⟨[(text "Compress", free), (text "ForwardToSyslog", free), (text "Storage", free),
        (text "MaxFileSec", free)]⟩ }),
    (text "/etc/systemd/coredump.conf", {
      mode := .dropin, «section» := some (text "Coredump"), style := .systemd, effect := .immediate
      keys := ⟨[(text "Storage", free), (text "ProcessSizeMax", free)]⟩ }),
    (text "/etc/security/pwquality.conf", {
      mode := .inplace, style := .eq, effect := .immediate
      keys := ⟨[(text "minlen", free), (text "difok", free), (text "maxrepeat", free),
        (text "maxsequence", free), (text "dictcheck", free), (text "enforcing", free)]⟩ }),
    (text "/etc/security/faillock.conf", {
      mode := .inplace, style := .eq, effect := .immediate
      keys := ⟨[(text "deny", guardedBy "account lockout locks real users out"),
        (text "unlock_time", free)]⟩ }),
    (text "/etc/login.defs", {
      mode := .inplace, style := .bare, effect := .immediate
      keys := ⟨[(text "PASS_MAX_DAYS", free), (text "PASS_WARN_AGE", free),
        (text "PASS_MIN_DAYS", free), (text "ENCRYPT_METHOD", free), (text "UMASK", free)]⟩ }),
    (text "/etc/audit/auditd.conf", {
      mode := .inplace, style := .eq, effect := .reboot
      keys := ⟨[(text "log_group", free), (text "space_left_action", free),
        (text "max_log_file_action", guardedBy "keep_logs never rotates audit logs"),
        (text "disk_full_action", guardedBy AUDITD_HALT),
        (text "admin_space_left_action", guardedBy AUDITD_HALT)]⟩ }),
    (text "/etc/default/apport", {
      mode := .inplace, style := .shell, effect := .reboot
      keys := ⟨[(text "enabled", free)]⟩ })]

/-! ## Directives of sshd -/

/-- The guard applies to the value that hardens. `list` is a list of algorithms. -/
structure SshdPolicy where
  name : Str
  guard : Option Str := none
  guardValue : Option Str := none
  list : Bool := false
  values : Option (List Str) := none

def SSHD_DIRECTIVES : Literal SshdPolicy where
  entries := [
    (text "permitrootlogin", {
      name := text "PermitRootLogin", guardValue := some (text "no")
      guard := some (text "if root is the account people log in with over SSH, nobody can log in by SSH afterwards") }),
    (text "passwordauthentication", {
      name := text "PasswordAuthentication", guardValue := some (text "no")
      guard := some (text "users who log in with a password are locked out of SSH") }),
    (text "permitemptypasswords", { name := text "PermitEmptyPasswords" }),
    (text "maxauthtries", { name := text "MaxAuthTries" }),
    (text "logingracetime", { name := text "LoginGraceTime" }),
    (text "x11forwarding", { name := text "X11Forwarding" }),
    (text "usepam", { name := text "UsePAM" }),
    (text "clientaliveinterval", { name := text "ClientAliveInterval" }),
    (text "clientalivecountmax", { name := text "ClientAliveCountMax" }),
    (text "banner", {
      name := text "Banner"
      values := some [text "/etc/issue.net", text "/etc/issue", text "none"] }),
    (text "disableforwarding", {
      name := text "DisableForwarding", guardValue := some (text "yes")
      guard := some (text "turns off SSH tunnels and port forwarding") }),
    (text "gssapiauthentication", {
      name := text "GSSAPIAuthentication", guardValue := some (text "no")
      guard := some (text "Kerberos single sign-on over SSH stops working") }),
    (text "hostbasedauthentication", { name := text "HostbasedAuthentication" }),
    (text "ignorerhosts", { name := text "IgnoreRhosts" }),
    (text "loglevel", { name := text "LogLevel" }),
    (text "maxsessions", { name := text "MaxSessions" }),
    (text "maxstartups", { name := text "MaxStartups" }),
    (text "permituserenvironment", { name := text "PermitUserEnvironment" }),
    (text "ciphers", { name := text "Ciphers", list := true }),
    (text "macs", { name := text "MACs", list := true }),
    (text "kexalgorithms", { name := text "KexAlgorithms", list := true })]

/-! ## Literal lines -/

inductive LineMode
  | ours
  | append
  deriving DecidableEq

structure LinePolicy where
  mode : LineMode
  perms : Nat
  /-- `reload: "augenrules"`. -/
  augenrules : Bool := false
  lines : Literal Guarded

/-- A guarded line may be taken out, never put in. -/
def LINE_FILES : Literal LinePolicy where
  entries := [
    (text "/etc/security/limits.d/60-tracenium.conf", {
      mode := .ours, perms := 0o644, lines := ⟨[(text "* hard core 0", free)]⟩ }),
    (text "/etc/apt/apt.conf.d/60tracenium-hardening", {
      mode := .ours, perms := 0o644
      lines := ⟨[
        (text "APT::Install-Recommends \"false\";",
          guardedBy "apt stops installing recommended packages"),
        (text "APT::Install-Suggests \"false\";",
          guardedBy "apt stops installing recommended packages")]⟩ }),
    (text "/etc/security/pwquality.conf", {
      mode := .append, perms := 0o644, lines := ⟨[(text "enforce_for_root", free)]⟩ }),
    (text "/etc/security/faillock.conf", {
      mode := .append, perms := 0o644
      lines := ⟨[(text "even_deny_root",
        guardedBy "root is locked out too after failed passwords")]⟩ }),
    (text "/etc/audit/rules.d/01-tracenium-continue.rules", {
      mode := .ours, perms := 0o640, augenrules := true, lines := ⟨[(text "-c", free)]⟩ })]

/-! ## Packages and units -/

/-- `acceptable`: the guard yields to a write that carries `accepted: true`. -/
structure PkgInstall extends Guarded where
  acceptable : Bool := false

structure PkgRule where
  install : Option PkgInstall := none
  remove : Option Guarded := none

namespace PkgRule

def installs (rule : Guarded) : PkgRule := { install := some { rule with } }
def removes (rule : Guarded) : PkgRule := { remove := some rule }

end PkgRule

def PKG_POLICY : Literal PkgRule where
  entries := [
    (text "aide", .installs (guardedBy "AIDE needs aideinit first")),
    (text "aide-common", .installs (guardedBy "AIDE needs aideinit first")),
    (text "apparmor", .installs free),
    (text "apparmor-utils", .installs free),
    (text "auditd", .installs free),
    (text "audispd-plugins", .installs free),
    (text "cracklib-runtime", .installs free),
    (text "sudo", .installs free),
    (text "rsyslog-gnutls", .installs free),
    (text "systemd-journal-remote", .installs free),
    (text "libpam-pwquality", {
      install := some {
        guardedBy "turns password-quality checks on in PAM" with acceptable := true } }),
    (text "telnet", .removes free),
    (text "inetutils-telnet", .removes free),
    (text "telnet-ssl", .removes free),
    (text "ftp", .removes free),
    (text "tnftp", .removes free),
    (text "ldap-utils", .removes free),
    (text "gdm3", .removes (guardedBy "removes the graphical desktop")),
    (text "xserver-common", .removes (guardedBy "removes the graphical desktop")),
    (text "apache2", .removes (guardedBy "removes the web server")),
    (text "nginx", .removes (guardedBy "removes the web server")),
    (text "bind9", .removes (guardedBy "stops answering DNS")),
    (text "cups", .removes (guardedBy "printing stops")),
    (text "bluez", .removes (guardedBy "Bluetooth stops")),
    (text "avahi-daemon", .removes (guardedBy "local network discovery stops")),
    (text "xinetd", .removes (guardedBy "xinetd services stop")),
    (text "apport", .removes (guardedBy "turning it off is enough"))]

/-- `others` are the units that go with it. -/
structure UnitRule where
  enable : Option Guarded := none
  disable : Option Guarded := none
  others : List Str := []

def UNIT_POLICY : Literal UnitRule where
  entries := [
    (text "auditd", { enable := some free }),
    (text "dailyaidecheck.timer", { enable := some (guardedBy "AIDE needs aideinit first") }),
    (text "update-notifier-motd.service", { disable := some free }),
    (text "update-notifier-motd.timer", { disable := some free }),
    (text "apport.service", { disable := some free }),
    (text "avahi-daemon.socket", {
      disable := some (guardedBy "local network discovery stops")
      others := [text "avahi-daemon.service"] }),
    (text "cups.socket", {
      disable := some (guardedBy "printing stops")
      others := [text "cups.service", text "cups-browsed.service"] }),
    (text "bluetooth.service", { disable := some (guardedBy "Bluetooth stops") }),
    (text "named.service", { disable := some (guardedBy "stops answering DNS") }),
    (text "xinetd.service", { disable := some (guardedBy "xinetd services stop") })]

/-! ## Permissions and banners -/

/-- The path itself, or the files directly in it. -/
inductive PermScope
  | path
  | files
  deriving DecidableEq

structure PermPolicy where
  maxMode : Str
  scope : PermScope

def PERM_POLICY : Literal PermPolicy where
  entries := [
    (text "/etc/crontab", ⟨text "0600", .path⟩),
    (text "/etc/cron.d", ⟨text "0700", .path⟩),
    (text "/etc/cron.hourly", ⟨text "0700", .path⟩),
    (text "/etc/cron.daily", ⟨text "0700", .path⟩),
    (text "/etc/cron.weekly", ⟨text "0700", .path⟩),
    (text "/etc/cron.monthly", ⟨text "0700", .path⟩),
    (text "/etc/cron.yearly", ⟨text "0700", .path⟩),
    (text "/etc/ssh/sshd_config", ⟨text "0600", .path⟩),
    (text "/etc/ssh/sshd_config.d", ⟨text "0600", .files⟩),
    (text "/usr/share/keyrings", ⟨text "0644", .files⟩),
    (text "/etc/apt/trusted.gpg.d", ⟨text "0644", .files⟩)]

def BANNER_FILES : List Str := [text "/etc/issue", text "/etc/issue.net", text "/etc/motd"]

def BANNER_TEXT : Str :=
  text "Authorized users only. All activity may be monitored and reported."

end Hardening
