import AegisHoneypot.VfsMap
import AegisHoneypot.Library.Provisioning

-- The golden image, `ensure_golden_rootfs`: what every sandbox has below its own
-- layer.
namespace AegisHoneypot.GoldenRootfs
open FileTree Utf8Text Provisioning Vfs

structure RootFile where
  path : Path
  mode : Nat
  text : Text
  deriving DecidableEq

-- Places are written by their components.
def partsOf (place : List String) : Path := place.map String.toList

-- A file of the image by its place and its lines, each of which ends.
def rootFile (place : List String) (mode : Nat) (lines : List String) : RootFile :=
  ⟨partsOf place,mode,lines.flatMap (fun line => line.toList ++ ['\n'])⟩

def dirs : List (List String) := [
  ["bin"],["boot"],["boot","grub"],["dev"],["dev","pts"],["dev","shm"],["etc"],["etc","ssh"],["etc","network"],
  ["etc","cron.d"],["etc","cron.daily"],["etc","cron.hourly"],["etc","cron.weekly"],["etc","cron.monthly"],
  ["etc","systemd"],["etc","systemd","system"],["etc","pam.d"],["etc","security"],["etc","default"],["etc","apt"],
  ["etc","apt","sources.list.d"],["home"],["home","ubuntu"],["home","ubuntu",".ssh"],["home","ubuntu","projects"],
  ["lib"],["lib64"],["media"],["mnt"],["opt"],["proc"],["proc","net"],["proc","sys","kernel"],["root"],["root",".ssh"],
  ["run"],["run","sshd"],["run","systemd"],["run","user"],["sbin"],["srv"],["sys"],["sys","class"],["sys","devices"],
  ["sys","fs","cgroup"],["tmp"],["usr"],["usr","bin"],["usr","sbin"],["usr","lib"],["usr","lib64"],["usr","local"],
  ["usr","local","bin"],["usr","local","sbin"],["usr","share"],["usr","include"],["var"],["var","backups"],
  ["var","cache"],["var","cache","apt"],["var","cache","apt","archives"],["var","lib"],["var","lib","dpkg"],
  ["var","lib","systemd"],["var","local"],["var","lock"],["var","log"],["var","log","nginx"],["var","log","journal"],
  ["var","mail"],["var","opt"],["var","run"],["var","spool"],["var","spool","cron"],["var","spool","cron","crontabs"],
  ["var","tmp"],["var","www"],["var","www","html"]]

def files : List RootFile := [
  rootFile ["etc","passwd"] 0o644 [
    "root:x:0:0:root:/root:/bin/bash","daemon:x:1:1:daemon:/usr/sbin:/usr/sbin/nologin",
    "bin:x:2:2:bin:/bin:/usr/sbin/nologin","sys:x:3:3:sys:/dev:/usr/sbin/nologin","sync:x:4:65534:sync:/bin:/bin/sync",
    "games:x:5:60:games:/usr/games:/usr/sbin/nologin","man:x:6:12:man:/var/cache/man:/usr/sbin/nologin",
    "lp:x:7:7:lp:/var/spool/lpd:/usr/sbin/nologin","mail:x:8:8:mail:/var/mail:/usr/sbin/nologin",
    "news:x:9:9:news:/var/spool/news:/usr/sbin/nologin","uucp:x:10:10:uucp:/var/spool/uucp:/usr/sbin/nologin",
    "proxy:x:13:13:proxy:/bin:/usr/sbin/nologin","www-data:x:33:33:www-data:/var/www:/usr/sbin/nologin",
    "backup:x:34:34:backup:/var/backups:/usr/sbin/nologin",
    "list:x:38:38:Mailing List Manager:/var/list:/usr/sbin/nologin",
    "nobody:x:65534:65534:nobody:/nonexistent:/usr/sbin/nologin",
    "systemd-network:x:100:102:systemd Network Management,,,:/run/systemd:/usr/sbin/nologin",
    "systemd-resolve:x:101:103:systemd Resolver,,,:/run/systemd:/usr/sbin/nologin",
    "messagebus:x:102:105::/nonexistent:/usr/sbin/nologin",
    "systemd-timesync:x:103:106:systemd Time Synchronization,,,:/run/systemd:/usr/sbin/nologin",
    "syslog:x:104:110::/home/syslog:/usr/sbin/nologin","_apt:x:105:65534::/nonexistent:/usr/sbin/nologin",
    "sshd:x:106:65534::/run/sshd:/usr/sbin/nologin","ubuntu:x:1000:1000:Ubuntu:/home/ubuntu:/bin/bash"],
  rootFile ["etc","shadow"] 0o640 [
    "root:$6$rounds=4096$Fk9mS...$rO2u.F88z1Ff9a2b8...:19400:0:99999:7:::","daemon:*:19400:0:99999:7:::",
    "bin:*:19400:0:99999:7:::","sys:*:19400:0:99999:7:::","sync:*:19400:0:99999:7:::","games:*:19400:0:99999:7:::",
    "man:*:19400:0:99999:7:::","lp:*:19400:0:99999:7:::","mail:*:19400:0:99999:7:::","news:*:19400:0:99999:7:::",
    "uucp:*:19400:0:99999:7:::","proxy:*:19400:0:99999:7:::","www-data:*:19400:0:99999:7:::",
    "backup:*:19400:0:99999:7:::","list:*:19400:0:99999:7:::","nobody:*:19400:0:99999:7:::",
    "systemd-network:*:19400:0:99999:7:::","systemd-resolve:*:19400:0:99999:7:::","messagebus:*:19400:0:99999:7:::",
    "systemd-timesync:*:19400:0:99999:7:::","syslog:*:19400:0:99999:7:::","_apt:*:19400:0:99999:7:::",
    "sshd:*:19400:0:99999:7:::","ubuntu:$6$v8L9Pq1...$Xn8kL0...:19400:0:99999:7:::"],
  rootFile ["etc","group"] 0o644 [
    "root:x:0:","daemon:x:1:","bin:x:2:","sys:x:3:","adm:x:4:syslog,ubuntu","tty:x:5:","disk:x:6:","lp:x:7:",
    "mail:x:8:","news:x:9:","uucp:x:10:","man:x:12:","proxy:x:13:","kmem:x:15:","dialout:x:20:ubuntu","fax:x:21:",
    "voice:x:22:","cdrom:x:24:ubuntu","floppy:x:25:","tape:x:26:","sudo:x:27:ubuntu","audio:x:29:ubuntu",
    "dip:x:30:ubuntu","www-data:x:33:","backup:x:34:","operator:x:37:","src:x:40:","shadow:x:42:","utmp:x:43:",
    "video:x:44:ubuntu","sasl:x:45:","plugdev:x:46:ubuntu","staff:x:50:","games:x:60:","users:x:100:",
    "nogroup:x:65534:","ubuntu:x:1000:"],
  rootFile ["etc","hosts"] 0o644 [
    "127.0.0.1 localhost","127.0.1.1 ubuntu-server-01","","# The following lines are desirable for IPv6 capable hosts",
    "::1 ip6-localhost ip6-loopback","fe00::0 ip6-localnet","ff00::0 ip6-mcastprefix","ff02::1 ip6-allnodes",
    "ff02::2 ip6-allrouters"],
  rootFile ["etc","hostname"] 0o644 ["ubuntu-server-01"],
  rootFile ["etc","os-release"] 0o644 [
    "PRETTY_NAME=\"Ubuntu 22.04.2 LTS\"","NAME=\"Ubuntu\"","VERSION_ID=\"22.04\"",
    "VERSION=\"22.04.2 LTS (Jammy Jellyfish)\"","VERSION_CODENAME=jammy","ID=ubuntu","ID_LIKE=debian",
    "HOME_URL=\"https://www.ubuntu.com/\"","SUPPORT_URL=\"https://help.ubuntu.com/\"",
    "BUG_REPORT_URL=\"https://bugs.launchpad.net/ubuntu/\"",
    "PRIVACY_POLICY_URL=\"https://www.ubuntu.com/legal/terms-and-policies/privacy-policy\"","UBUNTU_CODENAME=jammy"],
  rootFile ["etc","issue"] 0o644 ["Ubuntu 22.04.2 LTS \\n \\l",""],
  rootFile ["etc","resolv.conf"] 0o644 [
    "# This is /run/systemd/resolve/stub-resolv.conf managed by man:systemd-resolved(8).","nameserver 127.0.0.53",
    "options edns0 trust-ad","search localdomain"],
  rootFile ["etc","crontab"] 0o644 [
    "# /etc/crontab: system-wide crontab","SHELL=/bin/sh",
    "PATH=/usr/local/sbin:/usr/local/bin:/sbin:/bin:/usr/sbin:/usr/bin","","# m h dom mon dow user  command",
    "17 *    * * *   root    cd / && run-parts --report /etc/cron.hourly",
    "25 6    * * *   root    test -x /usr/sbin/anacron || ( cd / && run-parts --report /etc/cron.daily )",
    "47 6    * * 7   root    test -x /usr/sbin/anacron || ( cd / && run-parts --report /etc/cron.weekly )",
    "52 6    1 * *   root    test -x /usr/sbin/anacron || ( cd / && run-parts --report /etc/cron.monthly )",
    "0 2     * * *   root    /bin/bash /root/backup.sh >> /var/log/backup.log 2>&1"],
  rootFile ["etc","fstab"] 0o644 [
    "# /etc/fstab: static file system information.",
    "UUID=3a1b2c3d-4e5f-6a7b-8c9d-0e1f2a3b4c5d /               ext4    errors=remount-ro 0       1",
    "/swapfile                                 none            swap    sw              0       0"],
  rootFile ["etc","sudoers"] 0o440 [
    "Defaults        env_reset","Defaults        mail_badpass",
    "Defaults        secure_path=\"/usr/local/sbin:/usr/local/bin:/usr/sbin:/usr/bin:/sbin:/bin\"",
    "root    ALL=(ALL:ALL) ALL","%admin ALL=(ALL) ALL","%sudo   ALL=(ALL:ALL) ALL"],
  rootFile ["etc","ssh","sshd_config"] 0o644 [
    "Port 22","PermitRootLogin yes","PasswordAuthentication yes","ChallengeResponseAuthentication no","UsePAM yes",
    "X11Forwarding yes","PrintMotd no","AcceptEnv LANG LC_*","Subsystem       sftp    /usr/lib/openssh/sftp-server"],
  rootFile ["etc","shells"] 0o644 [
    "# /etc/shells: valid login shells","/bin/sh","/bin/bash","/usr/bin/sh","/usr/bin/bash","/bin/rbash",
    "/usr/bin/rbash","/bin/dash","/usr/bin/dash"],
  rootFile ["etc","environment"] 0o644 [
    "PATH=\"/usr/local/sbin:/usr/local/bin:/usr/sbin:/usr/bin:/sbin:/bin:/usr/games:/usr/local/games:/snap/bin\""],
  rootFile ["etc","apt","sources.list"] 0o644 [
    "deb http://archive.ubuntu.com/ubuntu jammy main restricted",
    "deb http://archive.ubuntu.com/ubuntu jammy-updates main restricted",
    "deb http://archive.ubuntu.com/ubuntu jammy universe","deb http://archive.ubuntu.com/ubuntu jammy-updates universe",
    "deb http://security.ubuntu.com/ubuntu jammy-security main restricted",
    "deb http://security.ubuntu.com/ubuntu jammy-security universe"],
  rootFile ["proc","cpuinfo"] 0o444 [
    "processor\t: 0","vendor_id\t: GenuineIntel","cpu family\t: 6","model\t\t: 142",
    "model name\t: Intel(R) Xeon(R) CPU E5-2676 v3 @ 2.40GHz","stepping\t: 2","cpu MHz\t\t: 2400.046",
    "cache size\t: 30720 KB","physical id\t: 0","siblings\t: 2","core id\t\t: 0","cpu cores\t: 2",
    "flags\t\t: fpu vme de pse tsc msr pae mce cx8 apic sep mtrr pge mca cmov pat pse36 clflush mmx fxsr sse sse2 ht syscall nx rdtscp lm constant_tsc rep_good nopl xtopology cpuid tsc_known_freq pni pclmulqdq ssse3 fma cx16 pcid sse4_1 sse4_2 x2apic movbe popcnt tsc_deadline_timer aes xsave avx f16c rdrand hypervisor lahf_lm abm cpuid_fault invpcid_single pti fsgsbase bmi1 avx2 smep bmi2 invpcid xsaveopt arat",
    "bugs\t\t: cpu_meltdown spectre_v1 spectre_v2 spec_store_bypass l1tf mds swapgs itlb_multihit",
    "bogomips\t: 4800.09","clflush size\t: 64","cache_alignment\t: 64",
    "address sizes\t: 46 bits physical, 48 bits virtual","","processor\t: 1","vendor_id\t: GenuineIntel",
    "cpu family\t: 6","model\t\t: 142","model name\t: Intel(R) Xeon(R) CPU E5-2676 v3 @ 2.40GHz","stepping\t: 2",
    "cpu MHz\t\t: 2400.046","cache size\t: 30720 KB","physical id\t: 0","siblings\t: 2","core id\t\t: 1",
    "cpu cores\t: 2"],
  rootFile ["proc","meminfo"] 0o444 [
    "MemTotal:        4016148 kB","MemFree:         1845120 kB","MemAvailable:    2954312 kB",
    "Buffers:          124508 kB","Cached:          1156824 kB","SwapCached:            0 kB",
    "Active:          1250140 kB","Inactive:         754210 kB","SwapTotal:       2097148 kB",
    "SwapFree:        2097148 kB"],
  rootFile ["proc","version"] 0o444 [
    "Linux version 5.15.0-72-generic (buildd@lcy02-amd64-019) (gcc (Ubuntu 11.3.0-1ubuntu1~22.04) 11.3.0, GNU ld (GNU Binutils for Ubuntu) 2.38) #79-Ubuntu SMP Wed Apr 19 08:22:18 UTC 2023"],
  rootFile ["proc","uptime"] 0o444 ["84321.45 167234.12"],
  rootFile ["proc","loadavg"] 0o444 ["0.08 0.03 0.01 1/148 2841"],
  rootFile ["root",".bashrc"] 0o644 [
    "# ~/.bashrc: executed by bash(1) for non-login shells.","export PS1='\\[\\e]0;\\u@\\h: \\w\\a\\]\\u@\\h:\\w\\# '",
    "alias ls='ls --color=auto'","alias ll='ls -alF'","alias la='ls -A'","alias l='ls -CF'"],
  rootFile ["root",".profile"] 0o644 [
    "# ~/.profile: executed by Bourne-compatible login shells.","if [ \"$BASH\" ]; then","if [ -f ~/.bashrc ]; then",
    ". ~/.bashrc","fi","fi","mesg n 2> /dev/null || true"],
  rootFile ["root",".bash_history"] 0o600 [
    "apt-get update","systemctl status nginx","docker ps","cat /etc/hosts","ufw status","ls -la /root"],
  rootFile ["root","backup.sh"] 0o750 [
    "#!/bin/bash","# Daily automated system backup",
    "tar -czf /var/backups/system_$(date +%Y%m%d).tar.gz /etc /var/www 2>/dev/null"],
  rootFile ["home","ubuntu",".bashrc"] 0o644 [
    "export PS1='\\[\\e]0;\\u@\\h: \\w\\a\\]\\u@\\h:\\w\\$ '","alias ls='ls --color=auto'"],
  rootFile ["home","ubuntu","projects","README.txt"] 0o644 ["Internal development projects directory."],
  rootFile ["var","www","html","index.html"] 0o644 [
    "<!DOCTYPE html>","<html>","<head><title>Welcome to nginx!</title></head>",
    "<body><h1>Welcome to nginx!</h1><p>If you see this page, the nginx web server is successfully installed.</p></body>",
    "</html>"],
  rootFile ["var","log","auth.log"] 0o640 [
    "Aug 27 18:00:01 ubuntu-server-01 CRON[1402]: pam_unix(cron:session): session opened for user root by (uid=0)",
    "Aug 27 18:00:01 ubuntu-server-01 CRON[1402]: pam_unix(cron:session): session closed for user root",
    "Aug 27 18:25:01 ubuntu-server-01 sshd[1842]: Accepted password for root from 192.0.2.100 port 52341 ssh2"],
  rootFile ["var","log","syslog"] 0o640 [
    "Aug 27 18:00:01 ubuntu-server-01 systemd[1]: Starting Daily apt download activities...",
    "Aug 27 18:00:02 ubuntu-server-01 systemd[1]: Finished Daily apt download activities."]]

def binNames : List String := [
  "bash","sh","dash","ls","cat","cp","mv","rm","mkdir","rmdir","touch","chmod","chown","uname","id","whoami","hostname",
  "ps","kill","pkill","grep","find","sed","awk","cut","head","tail","wc","sort","uniq","echo","date","sleep","which",
  "curl","wget","python3","python","perl","sudo","su","passwd","crontab","tar","gzip","base64","xxd","nc","netcat",
  "ping","netstat","ss","ifconfig","ip","df","free","uptime","dmesg","systemctl","service","journalctl","apt","apt-get",
  "dpkg","nmap"]

def stub (dir : Path) (name : String) : RootFile :=
  ⟨dir ++ [name.toList],0o755,"#!/bin/sh\n# Aegis sandbox stub: ".toList ++ name.toList ++ "\nexit 0\n".toList⟩

def stubs : List RootFile := binNames.flatMap fun name => [stub ["bin".toList] name,stub ["usr".toList,"bin".toList] name]

def dirPaths : List Path := dirs.map partsOf

theorem files_beside : ∀ file ∈ files, ∀ dir ∈ dirPaths, ¬ file.path <+: dir := by decide +kernel

theorem files_apart : files.Pairwise (fun one other => ¬ one.path <+: other.path ∧ ¬ other.path <+: one.path) := by decide +kernel

theorem files_outside : ∀ file ∈ files,
    file.path ≠ [] ∧ file.path.head? ≠ some "bin".toList ∧ file.path.head? ≠ some "usr".toList := by
  decide +kernel

theorem dirs_outside : ∀ dir ∈ dirPaths, (["bin".toList] <+: dir → dir.length ≤ 1) ∧
    (["usr".toList,"bin".toList] <+: dir → dir.length ≤ 2) := by decide +kernel

def rootFiles : List RootFile := files ++ stubs

theorem stub_made (inside : file ∈ stubs) :
    ∃ name, file = stub ["bin".toList] name ∨ file = stub ["usr".toList,"bin".toList] name := by
  obtain ⟨name,_,made⟩ := List.mem_flatMap.mp inside
  rcases List.mem_cons.mp made with first | second
  · exact ⟨name,.inl first⟩
  · exact ⟨name,.inr (List.mem_singleton.mp second)⟩

theorem rootFiles_named : ∀ file ∈ rootFiles, file.path ≠ [] := by
  intro file inside
  rcases List.mem_append.mp inside with listed | made
  · exact (files_outside file listed).1
  · obtain ⟨name,rfl | rfl⟩ := stub_made made <;> exact List.cons_ne_nil _ _

theorem rootFiles_beside : ∀ file ∈ rootFiles, ∀ dir ∈ dirPaths, ¬ file.path <+: dir := by
  intro file inside dir placed above
  rcases List.mem_append.mp inside with listed | made
  · exact files_beside file listed dir placed above
  · have outside := dirs_outside dir placed
    obtain ⟨name,rfl | rfl⟩ := stub_made made
    · have long : 2 ≤ dir.length := above.length_le
      have short := outside.1 ((List.prefix_append ["bin".toList] _).trans above)
      omega
    · have long : 3 ≤ dir.length := above.length_le
      have short := outside.2 ((List.prefix_append ["usr".toList,"bin".toList] _).trans above)
      omega

theorem head_shared {one other : Path} (named : one ≠ []) (above : one <+: other) : one.head? = other.head? := by
  obtain ⟨rest,rfl⟩ := above
  cases one with
  | nil => exact absurd rfl named
  | cons first later => rfl

theorem stub_same (dir : Path) {name another : String} (above : (stub dir name).path <+: (stub dir another).path) :
    stub dir name = stub dir another := by
  have under : [name.toList] <+: [another.toList] := (List.prefix_append_right_inj dir).mp above
  have equal : name.toList = another.toList := (List.cons_prefix_cons.mp under).1
  rw [String.toList_inj.mp equal]

theorem rootFiles_apart : ∀ file ∈ rootFiles, ∀ other ∈ rootFiles, file.path <+: other.path → file = other := by
  intro file inside other listed above
  have head := head_shared (rootFiles_named file inside) above
  rcases List.mem_append.mp inside with mine | mine
  · rcases List.mem_append.mp listed with theirs | theirs
    · by_contra differ
      have mutual_ : Std.Symm fun one other : RootFile => ¬ one.path <+: other.path ∧ ¬ other.path <+: one.path :=
        ⟨fun _ _ both => both.symm⟩
      exact (files_apart.forall mine theirs differ).1 above
    · have outside := files_outside file mine
      obtain ⟨name,rfl | rfl⟩ := stub_made theirs
      · exact absurd head outside.2.1
      · exact absurd head outside.2.2
  · obtain ⟨name,made⟩ := stub_made mine
    rcases List.mem_append.mp listed with theirs | theirs
    · have outside := files_outside other theirs
      rcases made with rfl | rfl
      · exact absurd head.symm outside.2.1
      · exact absurd head.symm outside.2.2
    · obtain ⟨another,same⟩ := stub_made theirs
      have apart : "bin".toList ≠ "usr".toList := by decide
      rcases made with rfl | rfl
      · rcases same with rfl | rfl
        · exact stub_same _ above
        · exact absurd (Option.some.inj head) apart
      · rcases same with rfl | rfl
        · exact absurd (Option.some.inj head).symm apart
        · exact stub_same _ above

def imageFiles : List ImageFile := rootFiles.map fun file => ⟨file.path,file.mode,encode file.text⟩

def marks : List (Path × Nat) := [(partsOf ["tmp"],0o1777),(partsOf ["var","tmp"],0o1777)]

theorem imageFiles_named : ∀ file ∈ imageFiles, file.path ≠ [] := by
  rw [imageFiles,List.forall_mem_map]
  exact rootFiles_named

theorem imageFiles_beside : ∀ file ∈ imageFiles, ∀ dir ∈ dirPaths, ¬ file.path <+: dir := by
  rw [imageFiles,List.forall_mem_map]
  exact rootFiles_beside

theorem imageFiles_apart : ∀ file ∈ imageFiles, ∀ other ∈ imageFiles, file.path <+: other.path → file = other := by
  simp only [imageFiles,List.forall_mem_map]
  intro file inside other listed above
  rw [rootFiles_apart file inside other listed above]

theorem marks_placed : ∀ mark ∈ marks, mark.1 ∈ dirPaths := by decide +kernel

theorem marks_once : ∀ mark ∈ marks, ∀ other ∈ marks, mark.1 = other.1 → mark = other := by decide +kernel

theorem marks_opened : ∀ mark ∈ marks, mark.2.testBit 6 = true ∧ mark.2.testBit 7 = true := by decide +kernel

-- The image below its own directory.
def golden : Image where
  dirs := dirPaths
  marks := marks
  files := imageFiles
  named := imageFiles_named
  beside := imageFiles_beside
  apart := imageFiles_apart
  marked := marks_placed
  once := marks_once
  opened := marks_opened

def ensureGoldenRootfs (world : World) (base : Path) (tree : Tree) : Option Tree := performAll world tree (golden.at base).calls

-- What a disk has of the image.
structure Furnished (base : Path) (disk : Disk) : Prop where
  files : ∀ file ∈ rootFiles, entry disk (base ++ file.path) = some (.file (encode file.text))
  ways : ∀ path, golden.OnWay path → entry disk (base ++ path) = some .dir

-- The image with its modes, over what was on the disk before.
structure Provisioned (base : Path) (origin done : Tree) : Prop where
  furnished : Furnished base done.disk
  modes : ∀ file ∈ rootFiles, done.mode (base ++ file.path) = file.mode
  marks : ∀ mark ∈ golden.marks, done.mode (base ++ mark.1) = mark.2
  kept : ∀ path, (∀ file ∈ rootFiles, base ++ file.path ≠ path) →
    ¬ (golden.at base).OnWay path ∨ (entry origin.disk path).isSome → entry done.disk path = entry origin.disk path
  spared : ∀ path, (entry origin.disk path).isSome → (∀ file ∈ rootFiles, base ++ file.path ≠ path) →
    (∀ mark ∈ golden.marks, base ++ mark.1 ≠ path) → done.mode path = origin.mode path

theorem file_listed (inside : file ∈ rootFiles) (base : Path) :
    ⟨base ++ file.path,file.mode,encode file.text⟩ ∈ (golden.at base).files :=
  List.mem_map.mpr ⟨⟨file.path,file.mode,encode file.text⟩,List.mem_map.mpr ⟨file,inside,rfl⟩,rfl⟩

theorem file_found (isFile : (golden.at base).IsFile path) : ∃ file ∈ rootFiles, base ++ file.path = path := by
  obtain ⟨_,listed,rfl⟩ := isFile
  obtain ⟨_,made,rfl⟩ := List.mem_map.mp listed
  obtain ⟨file,inside,rfl⟩ := List.mem_map.mp made
  exact ⟨file,inside,rfl⟩

theorem file_beside (beside : ∀ file ∈ rootFiles, base ++ file.path ≠ path) : ¬ (golden.at base).IsFile path := by
  intro isFile
  obtain ⟨file,inside,same⟩ := file_found isFile
  exact beside file inside same

theorem laid_furnished {origin done : Tree} (laid : (golden.at base).Laid origin done) : Furnished base done.disk where
  files file inside := by
    rw [laid.entries]
    exact Image.laidOver_file origin.disk (file_listed inside base)
  ways path way := by
    rw [laid.entries]
    exact Image.laidOver_way origin.disk (way.under base)

theorem laid_provisioned {origin done : Tree} (fits : (golden.at base).Fits origin.disk) (laid : (golden.at base).Laid origin done) :
    Provisioned base origin done where
  furnished := laid_furnished laid
  modes file inside := laid.fileModes _ (file_listed inside base)
  marks mark inside := laid.marks _ (List.mem_map_of_mem inside)
  kept path beside free := by
    have leaf := file_beside beside
    rw [laid.entries]
    rcases free with off | present
    · rw [Image.laidOver_off _ leaf,if_neg off]
    · exact Image.laidOver_kept fits present leaf
  spared path present beside unmarked := by
    refine laid.modes path present (file_beside beside) ?_
    intro marked
    obtain ⟨_,listed,rfl⟩ := List.mem_map.mp marked
    obtain ⟨mark,inside,rfl⟩ := List.mem_map.mp listed
    exact unmarked mark inside rfl

-- Every start and every session runs it again. Wherever earlier runs were cut
-- short, one that is not leaves the whole image, and the rest of the disk as it was.
theorem provisioning_converges (world : World) (base : Path) (origin tree : Tree) (fits : (golden.at base).Fits origin.disk)
    (open_ : (golden.at base).Open world origin) (attempts : Attempts world (golden.at base).calls origin tree) :
    ∃ done, ensureGoldenRootfs world base tree = some done ∧ Provisioned base origin done := by
  obtain ⟨done,went,laid,_⟩ := Image.converges world fits open_ attempts
  exact ⟨done,went,laid_provisioned fits laid⟩

-- A disk of its own with nothing on it, and a gateway that does not run as root.
def blank : Tree := ⟨∅,fun _ => 0o755,fun _ => .owner⟩

def unprivileged : World := ⟨false,0o755,0o644⟩

def place : Path := ["rootfs".toList]

theorem blank_fits : (golden.at place).Fits blank.disk where
  shaped := empty_shaped
  ways path content _ held := by
    unfold entry at held
    split at held <;> cases held
  files path file held := by
    rw [entry_lookup _ (Image.file_named file)] at held
    cases held

theorem blank_may (right : Right) (path : Path) : may unprivileged blank right path = true := by
  change (0o755 : Nat).testBit (6+right.bit) = true
  cases right <;> decide

theorem blank_open : (golden.at place).Open unprivileged blank where
  fresh right := by cases right <;> decide
  search path _ _ := blank_may .search path
  add path _ _ _ := blank_may .write _
  owned _ _ _ := rfl

-- The first run dies with the image's own directory made and nothing in it.
theorem cut_provisioning_converges : ∃ tree, Attempts unprivileged (golden.at place).calls blank tree ∧
    entry tree.disk place = some .dir ∧ entry tree.disk (place ++ ["bin".toList]) = none ∧
      ∃ done, ensureGoldenRootfs unprivileged place tree = some done ∧ Provisioned place blank done := by
  obtain ⟨tree,went,made⟩ : ∃ tree, perform unprivileged blank (.makeDirs place) = some tree ∧
      entry tree.disk place = some .dir ∧ entry tree.disk (place ++ ["bin".toList]) = none := ⟨_,rfl,by decide,by decide⟩
  have first : (golden.at place).calls = .makeDirs (place ++ ["bin".toList]) :: (golden.at place).calls.tail := rfl
  have attempts : Attempts unprivileged (golden.at place).calls blank tree := by
    refine .again .none ?_
    rw [first]
    exact .cut (.dirs (List.prefix_append _ _) went)
  exact ⟨tree,attempts,made.1,made.2,provisioning_converges unprivileged place blank tree blank_fits blank_open attempts⟩

end AegisHoneypot.GoldenRootfs
