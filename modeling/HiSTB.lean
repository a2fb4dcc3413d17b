import HiSTB.Rtpfec.Correctness.Order
import HiSTB.Rtpfec.Correctness.Decoding
import HiSTB.Omxvdec.Correctness.Frames
import HiSTB.Omxvdec.Correctness.Commands
import HiSTB.Omxvdec.Correctness.Streams
import HiSTB.Omxvdec.Correctness.LastFrame
import HiSTB.Omxvdec.Correctness.Unbind
import HiSTB.Omxvdec.Correctness.Rejected
import HiSTB.Omxvdec.Correctness.Seek
import HiSTB.Tde.Correctness.Removal
import HiSTB.Tde.Correctness.Submit
import HiSTB.Vpss.Correctness.Order
import HiSTB.Vpss.Correctness.Release
import HiSTB.Demux.Correctness.Pes
import HiSTB.Demux.Correctness.Filters
import HiSTB.Demux.Correctness.RecBlocks
import HiSTB.Demux.Correctness.RecIndexV1
import HiSTB.Pvr.Correctness.WriteStream
import HiSTB.Demux.Correctness.DataFlag
import HiSTB.Demux.Correctness.RamHw
import HiSTB.Vo.Correctness.Lifetime
import HiSTB.Hls.Correctness.Timeline
import HiSTB.Hls.Correctness.Finished
import HiSTB.Hls.Correctness.Live
import HiSTB.Security.Correctness.Sha1
import HiSTB.Pvr.Correctness.PlayParts
import HiSTB.Pvr.Correctness.RecTable
import HiSTB.Pvr.Correctness.ExtCallBack
import HiSTB.Pvr.Correctness.Delta
import HiSTB.Pvr.Correctness.TsEnd
import HiSTB.Rtpfec.Correctness.Budget
import HiSTB.Rtpfec.Correctness.Copies
import HiSTB.Pktq.Correctness.Fifo
import HiSTB.Pktq.Correctness.Bounds
import HiSTB.Pktq.Correctness.Hysteresis
import HiSTB.Pktq.Correctness.Nodes
import HiSTB.Alsa.Correctness.Periods
import HiSTB.Avplay.Correctness.Audio
import HiSTB.Avplay.Correctness.Drop
import HiSTB.Avplay.Correctness.DmxAud
import HiSTB.Omxvdec.Correctness.Rate
import HiSTB.Omxvdec.Correctness.ChanRecord
import HiSTB.Ao.Correctness.LowLatency
import HiSTB.Demux.Correctness.Rewind
import HiSTB.Demux.Correctness.EsPts
import HiSTB.Demux.Correctness.EsRelease
import HiSTB.Demux.Correctness.ScdTime
import HiSTB.Demux.Correctness.FqStatus
import HiSTB.Security.Correctness.SystemVerify
import HiSTB.Frc.Correctness.Recover
import HiSTB.Vo.Correctness.OutRect
import HiSTB.Subtitle.Correctness.Shaping
import HiSTB.Hls.Correctness.Bandwidth
import HiSTB.Vo.Correctness.StillFrame
import HiSTB.Vo.Correctness.Redistribute
import HiSTB.Hls.Correctness.Iframe
import HiSTB.Hls.Correctness.M3u8
import HiSTB.Demux.Correctness.SecLength
import HiSTB.Avplay.Correctness.CheckBuf
import HiSTB.Subtitle.Correctness.Utf8End
import HiSTB.Alsa.Correctness.Substream
import HiSTB.Avplay.Correctness.AudEs
import HiSTB.Avplay.Correctness.StreamMode
