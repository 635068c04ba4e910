import FatForensic.Directory.ExfatRoundTrip
import FatForensic.Directory.FatRoundTrip
import FatForensic.Directory.Deletion
import FatForensic.Directory.Renaming
import FatForensic.Directory.Slots
import FatForensic.Directory.Stamps
import FatForensic.Directory.Timestamps
import FatForensic.Volume.RunsAgree
import FatForensic.Volume.ExfatHandles
import FatForensic.Volume.Adapter
import FatForensic.Volume.Addresses
import FatForensic.Volume.BitStream
import FatForensic.Volume.ChainCap
import FatForensic.Volume.Chunking
import FatForensic.Volume.DotDot
import FatForensic.Volume.MirrorBlind
import FatForensic.Volume.HighWord
import FatForensic.Volume.Hierarchies
import FatForensic.Volume.Sight
import FatForensic.Volume.SizeBound
import FatForensic.Volume.FatCache
import FatForensic.Volume.Footprint
import FatForensic.Volume.Layout
import FatForensic.Volume.ListingSize
import FatForensic.Volume.NoFault
import FatForensic.Volume.RootCluster
import FatForensic.Forensic.BootRegion
import FatForensic.Forensic.Completeness
import FatForensic.Forensic.Duplicates
import FatForensic.Forensic.Listing
import FatForensic.Forensic.LostDirectories
import FatForensic.Forensic.Effort
import FatForensic.Forensic.Mirror
import FatForensic.Forensic.StoredOutput
import FatForensic.Volume.Contiguous
import FatForensic.Volume.SlotIndex
import FatForensic.Volume.Truncation
import FatForensic.Volume.UnicodeNames
import FatForensic.Volume.TruncatedReads
import FatForensic.Volume.Written
import FatForensic.Forensic.WrittenAudit
import FatForensic.Volume.AnySource
import FatForensic.Forensic.AnySource
import FatForensic.Volume.BootSectors
