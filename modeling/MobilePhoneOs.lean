import MobilePhoneOs.Kernel.PipeTheorems
import MobilePhoneOs.Fs.Fat32MkfsTheorems
import MobilePhoneOs.Fs.Fat32UnlinkTheorems
import MobilePhoneOs.Kernel.MqueueTheorems
import MobilePhoneOs.Kernel.ContextSaveTheorems
import MobilePhoneOs.Kernel.SyncTheorems
import MobilePhoneOs.Kernel.ReapTheorems
import MobilePhoneOs.Kernel.ShmTheorems
import MobilePhoneOs.Kernel.MqueueLifeTheorems
import MobilePhoneOs.Fs.RamfsTheorems
import MobilePhoneOs.Fs.Ext2InodeTheorems
import MobilePhoneOs.Fs.Ext2RecordTheorems
import MobilePhoneOs.Fs.MountTheorems
import MobilePhoneOs.Userspace.WindowsTheorems
import MobilePhoneOs.Userspace.StripsTheorems
import MobilePhoneOs.Userspace.MallocTheorems
import MobilePhoneOs.Drivers.BlockRaceTheorems
import MobilePhoneOs.Kernel.SignalTheorems
import MobilePhoneOs.Kernel.AbmgrTheorems
import MobilePhoneOs.Drivers.VirtioBlkTheorems
import MobilePhoneOs.Kernel.BlockingTheorems
import MobilePhoneOs.Drivers.SmsEncodeTheorems
import MobilePhoneOs.Net.TcpAckTheorems
import MobilePhoneOs.Net.TcpTableTheorems
import MobilePhoneOs.Kernel.BrkTheorems
import MobilePhoneOs.Kernel.MmapTheorems
import MobilePhoneOs.Mm.CopySpaceTheorems
import MobilePhoneOs.Kernel.StackSetupTheorems
import MobilePhoneOs.Kernel.ElfTheorems
import MobilePhoneOs.Kernel.DescriptorsTheorems
import MobilePhoneOs.Kernel.MsgrcvTheorems
import MobilePhoneOs.Kernel.SelectTheorems
import MobilePhoneOs.Fs.GetdentsTheorems
import MobilePhoneOs.Fs.RamfsFileTheorems
import MobilePhoneOs.Fs.PathsTheorems
import MobilePhoneOs.Fs.VfsOpenTheorems
import MobilePhoneOs.Fs.Fat32WalkTheorems
import MobilePhoneOs.Kernel.SchedOrderTheorems
import MobilePhoneOs.Userspace.PinTheorems
import MobilePhoneOs.Net.ArpTheorems
import MobilePhoneOs.Net.Ipv4Theorems
import MobilePhoneOs.Kernel.PollTheorems
import MobilePhoneOs.Kernel.Tasklet
import MobilePhoneOs.Drivers.CrcTheorems
import MobilePhoneOs.Fs.Ext2CheckedTheorems
import MobilePhoneOs.Kernel.ModemdTheorems
