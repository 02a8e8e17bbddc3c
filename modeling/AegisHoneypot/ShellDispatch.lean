import AegisHoneypot.VfsConfinement

namespace AegisHoneypot.Shell
open FileTree Utf8Text Vfs

def rows (lines : List String) : Text := lines.flatMap (fun line => line.toList ++ Text.crlf)

def uname : Text := rows [
  "Linux ubuntu-server-01 5.15.0-72-generic #79-Ubuntu SMP Wed Apr 19 08:22:18 UTC 2023 x86_64 x86_64 x86_64 GNU/Linux"]

-- A line continued with a backslash loses its leading blanks.
def psAux : Text := rows [
  "USER       PID %CPU %MEM    VSZ   RSS TTY      STAT START   TIME COMMAND",
  "root         1  0.0  0.1 165924  9080 ?        Ss   Aug26   0:03 /sbin/init",
  "root       512  0.0  0.1  72296  5584 ?        Ss   Aug26   0:00 /lib/systemd/systemd-journald",
  "root       783  0.0  0.0 104740  1736 ?        Ssl  Aug26   0:00 /usr/sbin/rsyslogd -n",
  "root       849  0.0  0.0  72292  2092 ?        Ss   Aug26   0:00 /usr/sbin/cron -f",
  "root      1200  0.0  0.1  71828  5912 ?        Ss   Aug26   0:00 /usr/sbin/sshd -D",
  "root      1822  0.0  0.1 107700  7228 ?        Ss   18:12   0:00 sshd: root@pts/0",
  "root      1824  0.0  0.0  21336  4488 pts/0    Ss   18:12   0:00 -bash",
  "www-data  2100  0.0  0.5 190120 21032 ?        S    Aug26   0:12 nginx: worker process",
  "root      2099  0.0  0.1  54876  4472 ?        Ss   Aug26   0:00 nginx: master process /usr/sbin/nginx -g daemon on; master_process on;",
  "root      2901  0.0  0.3 1487420 13588 ?       Ssl  Aug26   0:15 dockerd --host=fd:// --containerd=/run/containerd/containerd.sock",
  "root      3100  0.0  0.2 711100 10644 ?        Ssl  Aug26   0:02 /usr/bin/containerd",
  "mysql     4122  0.1  3.2 1821196 132488 ?      Sl   Aug26   1:23 /usr/sbin/mysqld"]

def netstat : Text := rows [
  "Active Internet connections (w/o servers)",
  "Proto Recv-Q Send-Q Local Address           Foreign Address         State",
  "tcp        0      0 0.0.0.0:22              0.0.0.0:*               LISTEN",
  "tcp        0      0 0.0.0.0:80              0.0.0.0:*               LISTEN",
  "tcp        0      0 0.0.0.0:443             0.0.0.0:*               LISTEN",
  "tcp        0      0 127.0.0.1:3306          0.0.0.0:*               LISTEN",
  "tcp        0      0 0.0.0.0:8080            0.0.0.0:*               LISTEN",
  "tcp6       0      0 :::22                   :::*                    LISTEN",
  "tcp6       0      0 :::80                   :::*                    LISTEN"]

def ssOut : Text := rows [
  "Netid    State    Recv-Q  Send-Q    Local Address:Port     Peer Address:Port  Process",
  "tcp      LISTEN   0       128             0.0.0.0:22            0.0.0.0:*     users:((\"sshd\",pid=1200,fd=3))",
  "tcp      LISTEN   0       511             0.0.0.0:80            0.0.0.0:*     users:((\"nginx\",pid=2099,fd=6))",
  "tcp      LISTEN   0       511             0.0.0.0:443           0.0.0.0:*     users:((\"nginx\",pid=2099,fd=7))",
  "tcp      LISTEN   0       128           127.0.0.1:3306          0.0.0.0:*     users:((\"mysqld\",pid=4122,fd=29))"]

def ifconfig : Text := rows [
  "eth0: flags=4163<UP,BROADCAST,RUNNING,MULTICAST>  mtu 1500",
  "inet 192.0.2.15  netmask 255.255.255.0  broadcast 192.0.2.255",
  "inet6 fe80::200:5eff:fe00:1  prefixlen 64  scopeid 0x20<link>",
  "ether 02:00:5e:00:00:01  txqueuelen 1000  (Ethernet)",
  "RX packets 184293 bytes 217234891 (207.2 MiB)",
  "TX packets 40237 bytes 5827433 (5.5 MiB)",
  "",
  "lo: flags=73<UP,LOOPBACK,RUNNING>  mtu 65536",
  "inet 127.0.0.1  netmask 255.0.0.0",
  "inet6 ::1  prefixlen 128  scopeid 0x10<host>",
  "loop  txqueuelen 1000  (Local Loopback)"]

def ipA : Text := rows [
  "1: lo: <LOOPBACK,UP,LOWER_UP> mtu 65536 qdisc noqueue state UNKNOWN group default qlen 1000",
  "link/loopback 00:00:00:00:00:00 brd 00:00:00:00:00:00",
  "inet 127.0.0.1/8 scope host lo",
  "2: eth0: <BROADCAST,MULTICAST,UP,LOWER_UP> mtu 1500 qdisc mq state UP group default qlen 1000",
  "link/ether 02:00:5e:00:00:01 brd ff:ff:ff:ff:ff:ff",
  "inet 192.0.2.15/24 brd 192.0.2.255 scope global eth0"]

def lscpu : Text := rows [
  "Architecture:                    x86_64",
  "CPU op-mode(s):                  32-bit, 64-bit",
  "Byte Order:                      Little Endian",
  "Address sizes:                   46 bits physical, 48 bits virtual",
  "CPU(s):                          4",
  "On-line CPU(s) list:             0-3",
  "Thread(s) per core:              1",
  "Core(s) per socket:              4",
  "Socket(s):                       1",
  "Model name:                      Intel(R) Xeon(R) CPU E5-2676 v3 @ 2.40GHz",
  "CPU MHz:                         2400.062",
  "BogoMIPS:                        4800.12",
  "L3 cache:                        30720K",
  "NUMA node0 CPU(s):               0-3"]

def crontabL : Text := rows [
  "# Edit this file to introduce tasks to be run by cron.",
  "# m h  dom mon dow   command",
  "0 2 * * *  /bin/bash /root/backup.sh >> /var/log/backup.log 2>&1",
  "*/15 * * * *  curl -s http://monitoring.example.com/health > /dev/null"]

def env : Text := rows [
  "HOME=/root",
  "SHELL=/bin/bash",
  "USER=root",
  "LOGNAME=root",
  "PATH=/usr/local/sbin:/usr/local/bin:/usr/sbin:/usr/bin:/sbin:/bin",
  "LANG=en_US.UTF-8",
  "TERM=xterm-256color",
  "SHLVL=1",
  "_=/usr/bin/env"]

def last : Text := rows [
  "root     pts/0        192.0.2.100      Mon Aug 26 22:14   still logged in",
  "root     pts/0        198.51.100.45    Mon Aug 26 03:12 - 03:14  (00:01)",
  "root     pts/0        203.0.113.156    Sun Aug 25 19:44 - 19:47  (00:02)",
  "ubuntu   pts/1        192.0.2.100      Sat Aug 24 15:30 - 17:22  (01:52)",
  "",
  "wtmp begins Wed Aug 01 00:00:00 2026"]

def dfH : Text := rows [
  "Filesystem      Size  Used Avail Use% Mounted on",
  "/dev/sda1        50G   18G   30G  38% /",
  "tmpfs           3.9G     0  3.9G   0% /dev/shm",
  "/dev/sda15      105M  5.3M  100M   6% /boot/efi"]

def freeH : Text := rows [
  "total        used        free      shared  buff/cache   available",
  "Mem:           7.8Gi       2.1Gi       3.0Gi        74Mi       2.7Gi       5.4Gi",
  "Swap:          2.0Gi          0B       2.0Gi"]

def w : Text := rows [
  "18:25:01 up 15 days,  6:12,  1 user,  load average: 0.12, 0.08, 0.03",
  "USER     TTY      FROM             LOGIN@   IDLE JCPU   PCPU WHAT",
  "root     pts/0    192.0.2.100     18:12    0.00s  0.06s  0.01s -bash"]

def uptime : Text := rows [" 18:25:01 up 15 days,  6:12,  1 user,  load average: 0.12, 0.08, 0.03"]

-- The text before and after the first `>>`, and before and after the last `>`.
def splitDouble : Text → Option (Text × Text)
  | '>' :: '>' :: rest => some ([],rest)
  | c :: rest => (splitDouble rest).map (fun found => (c :: found.1,found.2))
  | [] => none

def splitLast : Text → Option (Text × Text)
  | [] => none
  | c :: rest => match splitLast rest with
    | some found => some (c :: found.1,found.2)
    | none => if c = '>' then some ([],rest) else none

structure Redirect where
  command : Text
  append : Bool
  file : Text
  deriving DecidableEq, Repr

def parseRedirect (cmd : Text) : Option Redirect :=
  match splitDouble cmd with
  | some found => some ⟨found.1,true,found.2⟩
  | none => match splitLast cmd with
    | some found => if found.2.head? = some '=' then none else some ⟨found.1,false,found.2⟩
    | none => none

-- Each turn of the loop takes at least the four letters of `sudo` away.
def stripSudoWithin : Nat → Text → Text
  | 0,cmd => cmd
  | turns+1,'s' :: 'u' :: 'd' :: 'o' :: rest =>
    if rest = [] then []
    else if rest.head? = some ' ' then stripSudoWithin turns (Text.trimStart rest)
    else 's' :: 'u' :: 'd' :: 'o' :: rest
  | _+1,cmd => cmd

def stripSudo (cmd : Text) : Text := stripSudoWithin cmd.length cmd

-- `splitn(2, ' ')`
def programOf (cmd : Text) : Text := cmd.takeWhile (· ≠ ' ')
def argsOf (cmd : Text) : Text := (cmd.dropWhile (· ≠ ' ')).drop 1

def firstWord (text : Text) (other : String) : Text := text.splitWhitespace.head?.getD other.toList
def lastWord (text : Text) : Text := text.splitWhitespace.getLast?.getD []

def quotedBy (quote : Char) (text : Text) : Bool := text.head? == some quote && text.getLast? == some quote

def echo (args : Text) : Text :=
  let text := args.trim
  let shown := if 2 ≤ (encode text).length ∧ (quotedBy '"' text || quotedBy '\'' text) = true then
    (text.drop 1).dropLast else text
  shown ++ Text.crlf

def historyEntries : List String :=
  ["apt-get update","systemctl status nginx","docker ps","cat /etc/hosts","ufw status","ls -la /root"]

def history : Text := historyEntries.zipIdx.flatMap (fun entry =>
  let number := (toString (entry.2+1)).toList
  "  ".toList ++ number ++ List.replicate (4-number.length) ' ' ++ entry.1.toList ++ Text.crlf)

def knownPrograms : List String :=
  ["bash","sh","python","python3","perl","curl","wget","tar","gzip","ls","cat","rm","mv","cp","mkdir","touch","find",
    "grep","awk","sed","chmod","chown","systemctl","apt","apt-get"]

def which (args : Text) : Text :=
  let name := firstWord args.trim ""
  if (knownPrograms.map String.toList).contains name then "/usr/bin/".toList ++ name ++ Text.crlf else []

def systemctl (args : Text) : Text :=
  if args.startsWith "status" then
    let service := Text.trim (args.drop 6)
    "● ".toList ++ service ++ ".service - ".toList ++ service ++
      "\r\n   Loaded: loaded\r\n   Active: active (running)\r\n".toList
  else []

def ping (args : Text) : Text :=
  let host := firstWord args "host"
  "PING ".toList ++ host ++ " (192.0.2.1) 56(84) bytes of data.\r\n64 bytes from ".toList ++ host ++
    ": icmp_seq=1 ttl=51 time=11.3 ms\r\n^C\r\n".toList

def curl (args : Text) : Text :=
  if args.trim = [] then rows ["curl: try 'curl --help' for more information"]
  else if (args.containsText "--help" || args.containsText "-h") = true then
    rows ["Usage: curl [options...] <url>","Use 'curl --help category' to get an overview of all categories."]
  else rows ["curl: (6) Could not resolve host"]

def wc (content target : Text) : Text :=
  " ".toList ++ Text.padLeft 7 (lines content).length ++ " ".toList ++ Text.padLeft 7 content.splitWhitespace.length ++
    " ".toList ++ Text.padLeft 7 (encode content).length ++ " ".toList ++ target ++ Text.crlf

def unknownProgram (cmd program : Text) : Text :=
  if (cmd.startsWith "./" || cmd.startsWith "/") = true then
    "bash: ".toList ++ cmd.splitWhitespace.head?.getD cmd ++ ": Permission denied\r\n".toList
  else "bash: ".toList ++ program ++ ": command not found\r\n".toList

-- The programs that work on the virtual file system.
def vfsProgram (program : String) (args : Text) : Option VfsCommand :=
  match program with
  | "pwd" => some .pwd
  | "cd" => some (.cd args)
  | "ls" => some (.ls args)
  | "cat" => some (.cat args)
  | "mkdir" => some (.mkdir args)
  | "touch" => some (.touch args)
  | "rm" => some (.rm args)
  | _ => none

-- All others answer from their arguments, the clock and the files they show.
def fixedProgram (date : Text) (cat : Text → Text) (cmd program args : Text) : Text :=
  match String.ofList program with
  | "echo" => echo args
  | "whoami" => rows ["root"]
  | "id" => rows ["uid=0(root) gid=0(root) groups=0(root)"]
  | "hostname" => rows ["ubuntu-server-01"]
  | "uname" => if 'a' ∈ args then uname else if 'r' ∈ args then rows ["5.15.0-72-generic"] else rows ["Linux"]
  | "ps" => psAux
  | "netstat" => netstat
  | "ss" => ssOut
  | "ifconfig" => ifconfig
  | "ip" => ipA
  | "lscpu" => lscpu
  | "env" | "printenv" => env
  | "crontab" => if 'l' ∈ args then crontabL else []
  | "last" => last
  | "w" => w
  | "who" => rows ["root     pts/0        2026-08-26 22:14 (192.0.2.100)"]
  | "uptime" => uptime
  | "df" => dfH
  | "free" => freeH
  | "history" => history
  | "clear" => "\x1b[2J\x1b[H".toList
  | "python" | "python3" => if args = [] then
      rows ["Python 3.10.6 (main, Nov 14 2022, 16:10:14) [GCC 11.3.0] on linux",
        "Type \"help\", \"copyright\", \"credits\" or \"license\" for more information."] ++ ">>> ".toList
    else []
  | "which" => which args
  | "chmod" | "chown" | "chattr" | "lsattr" => []
  | "systemctl" => systemctl args
  | "service" => []
  | "apt" | "apt-get" =>
    rows ["Reading package lists... Done","Building dependency tree... Done","Reading state information... Done"]
  | "find" => if (args.containsText "-name" && args.containsText "*.sh") = true then
      rows ["/root/backup.sh","/etc/cron.daily/apt-compat"] else []
  | "grep" => []
  | "tar" | "gzip" | "gunzip" | "unzip" | "zip" => []
  | "scp" | "ssh" | "sftp" => rows ["ssh: connect to host localhost port 22: Connection refused"]
  | "ping" => ping args
  | "nmap" => rows ["Starting Nmap 7.80 ( https://nmap.org )",
      "nmap: You requested a scan type which requires root privileges."]
  | "exit" | "logout" => []
  | "base64" => rows ["SGVsbG8gV29ybGQK"]
  | "xxd" => []
  | "date" => date ++ Text.crlf
  | "head" | "tail" => cat (lastWord args)
  | "wc" => wc (cat (lastWord args)) (lastWord args)
  | "cut" | "sort" | "uniq" | "awk" | "sed" | "tr" | "tee" | "xargs" => []
  | "nc" | "netcat" | "ncat" =>
    rows ["nc: getaddrinfo for host \"\" port 0: Servname not supported for ai_socktype"]
  | "curl" => curl args
  | "passwd" => rows ["Changing password for root."] ++ "New password: ".toList
  | "useradd" | "userdel" | "usermod" | "groupadd" => []
  | "su" | "lsof" | "strace" => []
  | "kill" | "killall" | "pkill" => []
  | "mount" | "umount" => []
  | "dmesg" =>
    rows ["[    0.000000] Initializing cgroup subsys cpuset","[    0.000000] Linux version 5.15.0-72-generic"]
  | "journalctl" => rows ["-- No entries --"]
  | _ => unknownProgram cmd program

section Dispatch
variable {σ : Type} (fs : HostFs σ) (date : Text)

def dispatchPure (cmd : Text) (state : VfsState σ) : Text × VfsState σ :=
  let cmd := stripSudo cmd
  if cmd = [] then ([],state) else
  let program := programOf cmd
  let args := argsOf cmd
  match vfsProgram (String.ofList program) args with
  | some command => state.run fs command
  | none => (fixedProgram date (state.vfs.cat (fs.view state.host)) cmd program args,state)

-- The answer of the write is dropped, so a redirection never prints anything.
def dispatchRedirect (redirect : Redirect) (state : VfsState σ) : VfsState σ :=
  let answer := dispatchPure fs date redirect.command.trim state
  (answer.2.run fs (.writeFile redirect.file.trim answer.1.unixLines redirect.append)).2

def dispatchSimple (cmd : Text) (state : VfsState σ) : Text × VfsState σ :=
  match parseRedirect cmd with
  | some redirect => ([],dispatchRedirect fs date redirect state)
  | none => dispatchPure fs date cmd state

def dispatchNext (current : Text × VfsState σ) (part : Text) : Text × VfsState σ :=
  let answer := dispatchSimple fs date part.trim current.2
  (current.1 ++ answer.1,answer.2)

-- The parts of a list hold no further `;`, so each is one of those above.
def dispatch (cmd : Text) (state : VfsState σ) : Text × VfsState σ :=
  let cmd := cmd.trim
  match parseRedirect cmd with
  | some redirect => ([],dispatchRedirect fs date redirect state)
  | none => if ';' ∈ cmd then (cmd.split ';').foldl (dispatchNext fs date) ([],state) else dispatchPure fs date cmd state

variable {root : Path} {keep : σ → Prop} {fs}

theorem dispatchPure_held (keeps : Keeps fs root keep) (held : Held root keep state) (cmd : Text) :
    Held root keep (dispatchPure fs date cmd state).2 := by
  unfold dispatchPure
  dsimp only
  split
  · exact held
  · split
    · rename_i command _
      exact run_held keeps held command
    · exact held

theorem dispatchRedirect_held (keeps : Keeps fs root keep) (held : Held root keep state) (redirect : Redirect) :
    Held root keep (dispatchRedirect fs date redirect state) :=
  run_held keeps (dispatchPure_held date keeps held redirect.command.trim) _

theorem dispatchSimple_held (keeps : Keeps fs root keep) (held : Held root keep state) (cmd : Text) :
    Held root keep (dispatchSimple fs date cmd state).2 := by
  unfold dispatchSimple
  split
  · exact dispatchRedirect_held date keeps held _
  · exact dispatchPure_held date keeps held cmd

theorem dispatch_held (keeps : Keeps fs root keep) (held : Held root keep state) (cmd : Text) :
    Held root keep (dispatch fs date cmd state).2 := by
  unfold dispatch
  dsimp only
  split
  · exact dispatchRedirect_held date keeps held _
  · split
    · exact targets_held Prod.snd _ _ held (fun current part held => dispatchSimple_held date keeps held part.trim)
    · exact dispatchPure_held date keeps held _

end Dispatch
end AegisHoneypot.Shell
