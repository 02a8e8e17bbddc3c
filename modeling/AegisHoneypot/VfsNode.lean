import AegisHoneypot.Library.Text

-- The in-memory tree that backs every session, beside the two disk layers.
namespace AegisHoneypot.VfsNode

-- Owner, group and time of a node are never read by any command.
structure FileNode where
  content : Text
  perms : Text
  permissionDenied : Bool
  deriving DecidableEq, Repr

inductive FsNode where
  | file (node : FileNode)
  | dir (perms : Text) (children : List (Text × FsNode))

abbrev Children := List (Text × FsNode)

def FileNode.new (content : String) : FileNode := ⟨content.toList,"-rw-r--r--".toList,false⟩

def FileNode.denied (node : FileNode) : FileNode :=
  {node with perms := "-rw-r-----".toList,permissionDenied := true}

def newFile (content : Text) : FsNode := .file ⟨content,"-rw-r--r--".toList,false⟩

def newDir : FsNode := .dir "drwxr-xr-x".toList []

namespace Children

def get (children : Children) (name : Text) : Option FsNode := children.lookup name

def remove (children : Children) (name : Text) : Children := children.filter (fun child => child.1 ≠ name)

def insert (children : Children) (name : Text) (node : FsNode) : Children :=
  (name,node) :: remove children name

-- `get_dir_mut`, as a reading and a writing back of the directory it reaches.
def getDir (root : Children) : List Text → Option Children
  | [] => some root
  | part :: rest => match get root part with
    | some (.dir _ children) => getDir children rest
    | _ => none

def putDir (root : Children) (parts : List Text) (changed : Children) : Children :=
  match parts with
  | [] => changed
  | part :: rest => match get root part with
    | some (.dir perms children) => insert root part (.dir perms (putDir children rest changed))
    | _ => root

def getNodeSafe (root : Children) : List Text → Option FsNode
  | [] => some (.dir "drwxr-xr-x".toList root)
  | [part] => get root part
  | part :: rest => match get root part with
    | some (.dir _ children) => getNodeSafe children rest
    | _ => none

-- The loop of `mkdir -p`: it stops at a file in the way.
def makeDirs (root : Children) : List Text → Children
  | [] => root
  | part :: rest => match get root part with
    | none => insert root part (.dir "drwxr-xr-x".toList (makeDirs [] rest))
    | some (.dir perms children) => insert root part (.dir perms (makeDirs children rest))
    | some (.file _) => root

end Children

section DefaultTree

def file (content : String) : FsNode := .file (FileNode.new content)

def entries (children : List (String × FsNode)) : Children :=
  children.map (fun child => (child.1.toList,child.2))

def dirWith (perms : String) (children : List (String × FsNode)) : FsNode := .dir perms.toList (entries children)

def dir (children : List (String × FsNode)) : FsNode := dirWith "drwxr-xr-x" children

def buildDefaultFs : Children := entries [
  ("bin",dir [
    ("bash",file ""),("sh",file ""),("ls",file ""),("cat",file ""),("cp",file ""),("mv",file ""),
    ("rm",file ""),("mkdir",file ""),("chmod",file ""),("chown",file ""),("uname",file ""),
    ("id",file ""),("whoami",file ""),("hostname",file ""),("ps",file ""),("grep",file ""),
    ("echo",file ""),("date",file ""),("curl",file ""),("wget",file ""),("python3",file "")]),
  ("boot",dir [
    ("vmlinuz-5.15.0-72-generic",file ""),
    ("initrd.img-5.15.0-72-generic",file ""),
    ("config-5.15.0-72-generic",file ""),
    ("System.map-5.15.0-72-generic",file ""),
    ("grub",dir [
      ("grub.cfg",file "# GRUB configuration file\n")])]),
  ("dev",dir [
    ("null",file ""),
    ("zero",file ""),
    ("urandom",file ""),
    ("random",file ""),
    ("tty",file ""),
    ("pts",dir []),
    ("shm",dir []),
    ("sda",file ""),
    ("sda1",file "")]),
  ("etc",dir [
    ("passwd",file "root:x:0:0:root:/root:/bin/bash\ndaemon:x:1:1:daemon:/usr/sbin:/usr/sbin/nologin\nbin:x:2:2:bin:/bin:/usr/sbin/nologin\nsys:x:3:3:sys:/dev:/usr/sbin/nologin\nwww-data:x:33:33:www-data:/var/www:/usr/sbin/nologin\nsshd:x:106:65534::/run/sshd:/usr/sbin/nologin\nubuntu:x:1000:1000:Ubuntu:/home/ubuntu:/bin/bash\n"),
    ("shadow",.file (FileNode.new "root:*:19400:0:99999:7:::\nubuntu:$6$fakesalt$encryptedhash:19400:0:99999:7:::\n").denied),
    ("group",file "root:x:0:\ndaemon:x:1:\nadm:x:4:syslog,ubuntu\nsudo:x:27:ubuntu\nwww-data:x:33:\nshadow:x:42:\nubuntu:x:1000:\n"),
    ("hosts",file "127.0.0.1 localhost\n127.0.1.1 ubuntu-server-01\n::1 ip6-localhost ip6-loopback\n"),
    ("hostname",file "ubuntu-server-01\n"),
    ("os-release",file "NAME=\"Ubuntu\"\nVERSION=\"22.04.2 LTS (Jammy Jellyfish)\"\nID=ubuntu\nPRETTY_NAME=\"Ubuntu 22.04.2 LTS\"\nVERSION_ID=\"22.04\"\n"),
    ("issue",file "Ubuntu 22.04.2 LTS \\n \\l\n\n"),
    ("resolv.conf",file "nameserver 127.0.0.53\noptions edns0 trust-ad\n"),
    ("crontab",file "# /etc/crontab\n0 2 * * *  root /bin/bash /root/backup.sh >> /var/log/backup.log 2>&1\n"),
    ("fstab",file "UUID=3a1b2c3d / ext4 errors=remount-ro 0 1\n"),
    ("sudoers",file "root ALL=(ALL:ALL) ALL\n%sudo ALL=(ALL:ALL) ALL\n"),
    ("shells",file "/bin/sh\n/bin/bash\n/usr/bin/sh\n/usr/bin/bash\n"),
    ("environment",file "PATH=\"/usr/local/sbin:/usr/local/bin:/usr/sbin:/usr/bin:/sbin:/bin\"\n"),
    ("ssh",dir [
      ("sshd_config",file "Port 22\nPermitRootLogin yes\nPasswordAuthentication yes\nX11Forwarding yes\n")]),
    ("network",dir [
      ("interfaces",file "auto lo\niface lo inet loopback\n")]),
    ("apt",dir [
      ("sources.list",file "deb http://archive.ubuntu.com/ubuntu jammy main restricted\n")])]),
  ("home",dir [
    ("ubuntu",dir [
      (".bashrc",file "export PS1='\\u@\\h:\\w\\$ '\n"),
      (".profile",file ""),
      (".ssh",dir []),
      ("projects",dir [
        ("README.txt",file "Internal development projects.\n")])])]),
  ("lib",dir [
    ("x86_64-linux-gnu",dir []),
    ("modules",dir [
      ("5.15.0-72-generic",dir [])])]),
  ("lib64",dir [
    ("ld-linux-x86-64.so.2",file "")]),
  ("media",dir []),
  ("mnt",dir []),
  ("opt",dir []),
  ("proc",dir [
    ("cpuinfo",file "processor\t: 0\nvendor_id\t: GenuineIntel\nmodel name\t: Intel(R) Xeon(R) CPU E5-2676 v3 @ 2.40GHz\ncpu cores\t: 2\n"),
    ("meminfo",file "MemTotal:        4016148 kB\nMemFree:         1845120 kB\nMemAvailable:    2954312 kB\n"),
    ("version",file "Linux version 5.15.0-72-generic (buildd@lcy02-amd64-019) (gcc 11.3.0) #79-Ubuntu SMP Wed Apr 19 08:22:18 UTC 2023\n"),
    ("uptime",file "84321.45 167234.12\n"),
    ("loadavg",file "0.08 0.03 0.01 1/148 2841\n"),
    ("mounts",file "rootfs / rootfs rw 0 0\nsysfs /sys sysfs rw,nosuid,nodev,noexec,relatime 0 0\nproc /proc proc rw,nosuid,nodev,noexec,relatime 0 0\n"),
    ("net",dir [
      ("dev",file "Inter-|   Receive                                                |  Transmit\n face |bytes    packets errs drop fifo frame compressed multicast|bytes    packets errs drop fifo colls carrier compressed\n    lo: 1234567     890    0    0    0     0          0         0  1234567     890    0    0    0     0       0          0\n  eth0: 9876543    4567    0    0    0     0          0         0  9876543    4567    0    0    0     0       0          0\n")]),
    ("sys",dir [
      ("kernel",dir [
        ("hostname",file "ubuntu-server-01\n"),
        ("osrelease",file "5.15.0-72-generic\n")])])]),
  ("root",dir [
    (".bashrc",file "# ~/.bashrc\nexport PS1='\\u@\\h:\\w\\# '\nalias ls='ls --color=auto'\n"),
    (".profile",file ""),
    (".bash_history",file "apt-get update\nsystemctl status nginx\ndocker ps\ncat /etc/hosts\nufw status\nls -la /root\n"),
    (".ssh",dir [
      ("authorized_keys",file "ssh-ed25519 AAAAC3NzaC1lZDI1NTE5AAAAIExampleKey root@mgmt\n")]),
    ("backup.sh",file "#!/bin/bash\ntar -czf /var/backups/system_backup.tar.gz /etc /var/www\n")]),
  ("run",dir [
    ("sshd.pid",file "1042\n"),
    ("systemd",dir []),
    ("lock",dir [])]),
  ("sbin",dir [
    ("init",file ""),("reboot",file ""),("shutdown",file ""),("iptables",file ""),("ip",file ""),
    ("ifconfig",file ""),("fdisk",file "")]),
  ("srv",dir []),
  ("sys",dir [
    ("class",dir []),
    ("devices",dir []),
    ("fs",dir [
      ("cgroup",dir [])])]),
  ("tmp",dirWith "drwxrwxrwt" []),
  ("usr",dir [
    ("bin",dir [
      ("python3",file ""),("curl",file ""),("wget",file ""),("sudo",file ""),("apt",file ""),
      ("apt-get",file ""),("systemctl",file ""),("netstat",file ""),("ss",file ""),("nc",file ""),
      ("base64",file ""),("xxd",file ""),("awk",file ""),("sed",file "")]),
    ("sbin",dir [
      ("sshd",file ""),("service",file "")]),
    ("lib",dir []),
    ("local",dir [
      ("bin",dir []),
      ("sbin",dir [])]),
    ("share",dir [])]),
  ("var",dir [
    ("backups",dir []),
    ("cache",dir [
      ("apt",dir [])]),
    ("lib",dir [
      ("dpkg",dir [])]),
    ("log",dir [
      ("auth.log",file "Aug 27 18:00:01 ubuntu-server-01 CRON[1402]: pam_unix(cron:session): session opened for user root\n"),
      ("syslog",file "Aug 27 18:00:01 ubuntu-server-01 systemd[1]: Starting Daily apt download activities...\n"),
      ("dpkg.log",file "2026-08-20 14:00:00 status installed linux-image-5.15.0-72-generic:amd64\n"),
      ("nginx",dir [
        ("access.log",file "192.0.2.100 - - [27/Aug/2026:18:00:00 +0000] \"GET / HTTP/1.1\" 200 612\n")])]),
    ("run",dir []),
    ("spool",dir []),
    ("tmp",dirWith "drwxrwxrwt" []),
    ("www",dir [
      ("html",dir [
        ("index.html",file "<!DOCTYPE html><html><body><h1>Welcome to nginx!</h1></body></html>\n")])])])]

end DefaultTree

end AegisHoneypot.VfsNode
